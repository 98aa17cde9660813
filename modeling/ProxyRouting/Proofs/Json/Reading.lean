import Mathlib.Data.List.Forall2
import ProxyRouting.Proofs.Json.Strings
import ProxyRouting.Proofs.Text.Cut

/-!
Values that are written can be read (`spells_compact`, `spells_pretty`): with as little space as there can be or on
lines of their own, a value nested no deeper than allowed is read as itself, up to whatever follows it. A number is
the one thing whose end is not written, so what follows must not go on with it. Arrays and objects are both series of
items between commas (`Series`), which are read whatever space stands in front of the items and behind the last one.
-/
namespace ProxyRouting.Json
open Text

/-- A character that is passed over in front of anything. -/
def isSpace (c : Char) : Bool := c == ' ' || c == '\n' || c == '\t' || c == '\r'

/-- A character that a number could go on with. -/
def isNumeric (c : Char) : Bool := c.isDigit || c == '.' || c == 'e' || c == 'E'

/-- The text is nothing but space. -/
def Spaces (t : Text) : Prop := ∀ c ∈ t, isSpace c = true

theorem spaces_nil : Spaces [] := by simp [Spaces]

theorem spaces_indent (level : Nat) : Spaces (indent level) := by
  intro c member
  rcases List.mem_cons.1 member with rfl | inside
  · decide
  · rw [List.eq_of_mem_replicate inside]
    decide

theorem skipSpace_spaces {lead : Text} (spaces : Spaces lead) (t : Text) : skipSpace (lead ++ t) = skipSpace t :=
  List.dropWhile_append_of_pos spaces

theorem skipSpace_of_stops {t : Text} (stops : Stops isSpace t) : skipSpace t = t :=
  dropWhile_run (by simp : ∀ c ∈ ([] : Text), isSpace c = true) stops

theorem isNumeric_of_isSpace {c : Char} (space : isSpace c = true) : isNumeric c = false := by
  simp only [isSpace, Bool.or_eq_true, beq_iff_eq] at space
  rcases space with ((rfl | rfl) | rfl) | rfl <;> decide

theorem isSpace_of_isDigit {c : Char} (digit : c.isDigit = true) : isSpace c = false := by
  rw [← Bool.not_eq_true]
  intro space
  have other := isNumeric_of_isSpace space
  simp [isNumeric, digit] at other

theorem stops_spaces {lead : Text} (spaces : Spaces lead) {c : Char} (other : isNumeric c = false) (t : Text) :
    Stops isNumeric (lead ++ c :: t) := by
  cases lead with
  | nil => exact stops_cons other t
  | cons d lead => exact stops_cons (isNumeric_of_isSpace (spaces d List.mem_cons_self)) _

/-- A reader reads the text as a value, with anything behind it that does not go on with a number. -/
def Spells {α : Type} (read : Text → Reading α) (t : Text) (a : α) : Prop :=
  ∀ rest, Stops isNumeric rest → read (t ++ rest) = .ok (a, rest)

/-- The text begins with what no space and no closing bracket is. -/
def Opens (t : Text) : Prop := ∃ c rest, t = c :: rest ∧ isSpace c = false ∧ c ≠ ']'

theorem opens_cons {c : Char} (plain : isSpace c = false) (other : c ≠ ']') (t : Text) : Opens (c :: t) :=
  ⟨c, t, rfl, plain, other⟩

theorem readWith_spaces {array object : Text → Reading Json} {lead : Text} (spaces : Spaces lead) (t : Text) :
    readWith array object (lead ++ t) = readWith array object t := by
  simp only [readWith, skipSpace_spaces spaces]

/-- A value may stand behind space. -/
theorem spells_spaces {depth : Nat} {lead t : Text} {j : Json} (spaces : Spaces lead)
    (spells : Spells (readValue depth) t j) : Spells (readValue depth) (lead ++ t) j := by
  intro rest stops
  rw [← spells rest stops, List.append_assoc]
  cases depth with
  | zero => exact readWith_spaces spaces _
  | succ depth => exact readWith_spaces spaces _

theorem stops_isDigit {rest : Text} (stops : Stops isNumeric rest) : Stops Char.isDigit rest := by
  intro c head
  have other := stops c head
  simp only [isNumeric, Bool.or_eq_false_iff] at other
  exact other.1.1.1

theorem readDigits_run {digits rest : Text} (all : ∀ c ∈ digits, c.isDigit = true) (present : digits ≠ [])
    (stops : Stops Char.isDigit rest) : readDigits (digits ++ rest) = .ok (digits, rest) := by
  obtain ⟨c, more, rfl⟩ := List.exists_cons_of_ne_nil present
  have first : c.isDigit = true := all c List.mem_cons_self
  have taken := takeWhile_run all stops
  have left := dropWhile_run all stops
  rw [List.cons_append] at taken left ⊢
  simp only [readDigits, first, ↓reduceIte, taken, left]

theorem readWhole_ofNat (n : Nat) {rest : Text} (stops : Stops Char.isDigit rest) :
    readWhole (ofNat n ++ rest) = .ok (ofNat n, rest) := by
  by_cases zero : n = 0
  · subst zero
    show readWhole ('0' :: rest) = .ok (['0'], rest)
    cases rest with
    | nil => rfl
    | cons c t => simp [readWhole, stops c rfl]
  · have read := readDigits_run isDigit_of_mem_ofNat (ofNat_ne_nil n) stops
    have head := head_ofNat (Nat.pos_of_ne_zero zero)
    rw [← read]
    obtain ⟨c, more, digits⟩ := List.exists_cons_of_ne_nil (ofNat_ne_nil n)
    rw [digits, List.cons_append]
    have lead : c ≠ '0' := by
      rintro rfl
      exact head (by rw [digits]; rfl)
    unfold readWhole
    split
    · next empty => cases empty
    · next same => exact absurd (List.cons.inj same).1 lead
    · next same => exact absurd (List.cons.inj same).1 lead
    · rfl

theorem readFraction_none {rest : Text} (stops : Stops isNumeric rest) : readFraction rest = .ok ([], rest) := by
  unfold readFraction
  split
  · next t => cases stops '.' rfl
  · rfl

theorem readExponent_none {rest : Text} (stops : Stops isNumeric rest) : readExponent rest = .ok ([], rest) := by
  cases rest with
  | nil => rfl
  | cons c t =>
    have other : ¬ (c = 'e' ∨ c = 'E') := by
      rintro (rfl | rfl)
      · cases stops 'e' rfl
      · cases stops 'E' rfl
    show (if c = 'e' ∨ c = 'E' then _ else _) = _
    rw [if_neg other]

/-- A number is read from its digits; only zero has no sign. -/
theorem readNumber_ofNat (negative : Bool) {n : Nat} (signed : ¬ (negative = true ∧ n = 0)) {rest : Text}
    (stops : Stops isNumeric rest) :
    readNumber negative (ofNat n ++ rest) = .ok (.whole (if negative then -n else n), rest) := by
  simp only [readNumber, readWhole_ofNat n (stops_isDigit stops), readFraction_none stops, readExponent_none stops,
    digitsValue_ofNat, bind, Except.bind]
  rw [if_pos ⟨trivial, trivial, signed⟩]

theorem readWith_digits {array object : Text → Reading Json} {c : Char} (digit : c.isDigit = true) (t : Text) :
    readWith array object (c :: t) = readNumber false (c :: t) := by
  have foreign {d : Char} (other : d.isDigit = false) (t' : Text) : c :: t ≠ d :: t' := by
    intro same
    rw [(List.cons.inj same).1, other] at digit
    cases digit
  unfold readWith
  rw [skipSpace_of_stops (stops_cons (isSpace_of_isDigit digit) t)]
  split
  · next empty => cases empty
  -- no other value begins with a digit
  on_goal 8 =>
    next same =>
    cases same
    rw [if_pos digit]
  all_goals
    next same => exact absurd same (foreign (by decide) _)

/-- The value is no array and no object, and no number but a whole one. -/
def IsAtom : Json → Prop
  | .null => True
  | .bool _ => True
  | .whole _ => True
  | .str _ => True
  | _ => False

theorem readWord_append (value : Json) (word rest : Text) : readWord value word (word ++ rest) = .ok (value, rest) := by
  induction word with
  | nil => rfl
  | cons c word ih => rw [List.cons_append, readWord, if_pos rfl, ih]

theorem pretty_atom {j : Json} (atom : j.IsAtom) (level : Nat) : j.pretty level = j.compact := by
  cases j with
  | null => rw [pretty, compact]
  | bool b => cases b <;> rw [pretty, compact]
  | whole n => rw [pretty, compact]
  | str t => rw [pretty, compact]
  | real | arr | obj => cases atom

theorem opens_atom {j : Json} (atom : j.IsAtom) : Opens j.compact := by
  cases j with
  | null => exact opens_cons (by decide) (by decide) _
  | bool b => cases b <;> exact opens_cons (by decide) (by decide) _
  | str t =>
    rw [compact]
    exact opens_cons (by decide) (by decide) _
  | whole n =>
    rw [compact]
    cases n with
    | negSucc n => exact opens_cons (by decide) (by decide) _
    | ofNat n =>
      obtain ⟨c, t, digits⟩ := List.exists_cons_of_ne_nil (ofNat_ne_nil n)
      have digit : c.isDigit = true := isDigit_of_mem_ofNat c (by rw [digits]; exact List.mem_cons_self)
      refine ⟨c, t, digits, isSpace_of_isDigit digit, ?_⟩
      rintro rfl
      cases digit
  | real | arr | obj => cases atom

theorem spells_atom {array object : Text → Reading Json} {j : Json} (atom : j.IsAtom) :
    Spells (readWith array object) j.compact j := by
  intro rest stops
  cases j with
  | null => exact readWord_append .null "ull".toList rest
  | bool b =>
    cases b with
    | true => exact readWord_append (.bool true) "rue".toList rest
    | false => exact readWord_append (.bool false) "alse".toList rest
  | str t =>
    have read : readString (t.flatMap escapeChar ++ '"' :: rest) = .ok (t, rest) := readString_quoted t rest
    have opened : quote t ++ rest = '"' :: (t.flatMap escapeChar ++ '"' :: rest) := by simp [quote]
    rw [compact, opened]
    show (readString _).map _ = _
    rw [read]
    rfl
  | whole n =>
    rw [compact]
    cases n with
    | negSucc n =>
      have read := readNumber_ofNat true (n := n + 1) (by simp) stops
      exact read
    | ofNat n =>
      have read := readNumber_ofNat false (n := n) (by simp) stops
      show readWith array object (ofNat n ++ rest) = _
      obtain ⟨c, t, digits⟩ := List.exists_cons_of_ne_nil (ofNat_ne_nil n)
      have digit : c.isDigit = true := isDigit_of_mem_ofNat c (by rw [digits]; exact List.mem_cons_self)
      rw [digits, List.cons_append] at read ⊢
      rw [readWith_digits digit, read]
      rfl
  | real | arr | obj => cases atom

/-! ## Series -/

section
variable {β : Type} {lead tail : Text} {ts : List Text} {bs : List β}

/-- The texts behind the first one, each behind a comma and the space in front of it. -/
def behindCommas (lead : Text) (ts : List Text) : Text := ts.flatMap fun t => ',' :: (lead ++ t)

theorem join_lead (lead t : Text) (ts : List Text) :
    join [','] ((t :: ts).map (lead ++ ·)) = lead ++ (t ++ behindCommas lead ts) := by
  rw [List.map_cons, join_cons, List.append_assoc, behindCommas, List.flatMap_map]
  rfl

/-- What stands behind an item goes on with no number. -/
theorem stops_behindCommas (lead : Text) (space : Spaces tail) {close : Char} (other : isNumeric close = false)
    (ts : List Text) (rest : Text) : Stops isNumeric (behindCommas lead ts ++ (tail ++ close :: rest)) := by
  cases ts with
  | nil => exact stops_spaces space other rest
  | cons t ts => exact stops_cons (by decide) _

theorem length_le_join (ts : List Text) : ts.length ≤ (join [','] ts).length + 1 := by
  induction ts with
  | nil => exact Nat.zero_le _
  | cons t ts ih =>
    cases ts with
    | nil => simp
    | cons u ts =>
      simp only [join, List.length_append, List.length_cons, List.length_nil] at ih ⊢
      omega

/-- A reader of items between commas up to a closing bracket, told what to take for the text of an item and what an
    item does to what has been read before it. Each item takes one of the steps it has. -/
structure Series {σ ρ : Type} (close : Char) (item : Text → β → Prop) (extend : σ → β → σ) (whole : σ → List β → ρ)
    (read : σ → Nat → Bool → Text → Reading ρ) : Prop where
  other : isNumeric close = false
  closes : ∀ {tail}, Spaces tail → ∀ before fuel isFirst rest,
    read before (fuel + 1) isFirst (tail ++ close :: rest) = .ok (whole before [], rest)
  first : ∀ {lead t b before fuel more bs rest}, Spaces lead → item t b → Stops isNumeric more →
    read (extend before b) fuel false more = .ok (whole (extend before b) bs, rest) →
    read before (fuel + 1) true (lead ++ (t ++ more)) = .ok (whole before (b :: bs), rest)
  later : ∀ {lead t b before fuel more bs rest}, Spaces lead → item t b → Stops isNumeric more →
    read (extend before b) fuel false more = .ok (whole (extend before b) bs, rest) →
    read before (fuel + 1) false (',' :: (lead ++ (t ++ more))) = .ok (whole before (b :: bs), rest)

variable {σ ρ : Type} {close : Char} {item : Text → β → Prop} {extend : σ → β → σ} {whole : σ → List β → ρ}
  {read : σ → Nat → Bool → Text → Reading ρ}

/-- The items behind the first one are read up to the closing bracket, given steps enough. -/
theorem Series.read_behindCommas (series : Series close item extend whole read) (space : Spaces lead)
    (space' : Spaces tail) (each : List.Forall₂ item ts bs) (before : σ) (rest : Text) {fuel : Nat}
    (enough : bs.length < fuel) :
    read before fuel false (behindCommas lead ts ++ (tail ++ close :: rest)) = .ok (whole before bs, rest) := by
  induction each generalizing fuel before with
  | nil =>
    obtain ⟨fuel, rfl⟩ := Nat.exists_eq_add_one_of_ne_zero (Nat.ne_of_gt enough)
    exact series.closes space' before fuel false rest
  | @cons t b ts bs first _ ih =>
    obtain ⟨fuel, rfl⟩ := Nat.exists_eq_add_one_of_ne_zero (Nat.ne_of_gt (Nat.zero_lt_of_lt enough))
    have others := ih (extend before b) (Nat.lt_of_succ_lt_succ enough)
    have stops := stops_behindCommas lead space' series.other ts rest
    have text : behindCommas lead (t :: ts) ++ (tail ++ close :: rest) =
        ',' :: (lead ++ (t ++ (behindCommas lead ts ++ (tail ++ close :: rest)))) := by simp [behindCommas]
    rw [text]
    exact series.later space first stops others

/-- A series is read from its items between commas, with any space in front of each and behind the last. -/
theorem Series.read_join (series : Series close item extend whole read) (space : Spaces lead) (space' : Spaces tail)
    (each : List.Forall₂ item ts bs) (before : σ) (rest : Text) {fuel : Nat} (enough : bs.length < fuel) :
    read before fuel true (join [','] (ts.map (lead ++ ·)) ++ (tail ++ close :: rest)) = .ok (whole before bs, rest) := by
  obtain ⟨fuel, rfl⟩ := Nat.exists_eq_add_one_of_ne_zero (Nat.ne_of_gt (Nat.zero_lt_of_lt enough))
  cases each with
  | nil => exact series.closes space' before fuel true rest
  | @cons t b ts bs first others =>
    have read := series.read_behindCommas space space' others (extend before b) rest (Nat.lt_of_succ_lt_succ enough)
    have stops := stops_behindCommas lead space' series.other ts rest
    rw [join_lead, List.append_assoc, List.append_assoc]
    exact series.first space first stops read

/-- A text has at least as many characters as there are items in it. -/
theorem length_lt_of_join (lead tail : Text) (ts : List Text) (close : Char) (rest : Text) :
    ts.length < (join [','] (ts.map (lead ++ ·)) ++ (tail ++ close :: rest)).length + 1 := by
  have commas := length_le_join (ts.map (lead ++ ·))
  rw [List.length_map] at commas
  simp only [List.length_append, List.length_cons]
  omega

end

section
variable {α : Type} {item : Text → Reading α} {lead tail : Text}

theorem skipSpace_begins {c : Char} {t : Text} (space : Spaces lead) (plain : isSpace c = false) :
    skipSpace (lead ++ c :: t) = c :: t := by
  rw [skipSpace_spaces space]
  exact skipSpace_of_stops (stops_cons plain _)

/-- Behind a bracket, what is no closing bracket begins an item. -/
theorem readItems_first {t more : Text} {c : Char} (begins : skipSpace t = c :: more) (other : c ≠ ']') (fuel : Nat) :
    readItems item (fuel + 1) true t = readItems.next item fuel (c :: more) := by
  unfold readItems
  rw [begins]
  split
  · next empty => cases empty
  · next same => exact absurd (List.cons.inj same).1 other
  · next same =>
    cases same
    rfl

/-- So it does behind a comma. -/
theorem readItems_comma {t more : Text} {c : Char} (begins : skipSpace t = c :: more) (other : c ≠ ']') (fuel : Nat) :
    readItems item (fuel + 1) false (',' :: t) = readItems.next item fuel (c :: more) := by
  have comma : skipSpace (',' :: t) = ',' :: t := skipSpace_of_stops (stops_cons (by decide) t)
  unfold readItems
  rw [comma]
  split
  · next empty => cases empty
  · next same => cases (List.cons.inj same).1
  · next same =>
    cases same
    rw [if_neg Bool.false_ne_true, if_pos rfl, begins]
    split
    · next empty => cases empty
    · next same => exact absurd (List.cons.inj same).1 other
    · rfl

/-- An item is read, and then those behind it. -/
theorem readItems_next {t more : Text} {a : α} {as : List α} {fuel : Nat} {rest : Text} (spells : Spells item t a)
    (stops : Stops isNumeric more) (others : readItems item fuel false more = .ok (as, rest)) :
    readItems.next item fuel (t ++ more) = .ok (a :: as, rest) := by
  simp only [readItems.next, spells more stops, others, Except.map]

theorem series_readItems (item : Text → Reading α) :
    Series ']' (fun t a => Opens t ∧ Spells item t a) (fun _ _ => ()) (fun _ as => as) fun () => readItems item where
  other := by decide
  closes := by
    intro tail space _ fuel isFirst rest
    have skipped : skipSpace (tail ++ ']' :: rest) = ']' :: rest := skipSpace_begins space (by decide)
    simp only [readItems, skipped]
  first := by
    rintro lead t a _ fuel more as rest space ⟨⟨c, u, rfl, plain, other⟩, spells⟩ stops others
    have next := readItems_next spells stops others
    rw [← next]
    exact readItems_first (skipSpace_begins space plain) other fuel
  later := by
    rintro lead t a _ fuel more as rest space ⟨⟨c, u, rfl, plain, other⟩, spells⟩ stops others
    have next := readItems_next spells stops others
    rw [← next]
    exact readItems_comma (skipSpace_begins space plain) other fuel

end

section
variable {α : Type} {value : Text → Text → Reading α} {lead tail : Text}

/-- The text of a field, with the text of its value behind the colon. -/
def fieldText (key v : Text) : Text := quote key ++ ':' :: v

theorem fieldText_append (key v more : Text) :
    fieldText key v ++ more = '"' :: (key.flatMap escapeChar ++ '"' :: ':' :: (v ++ more)) := by
  simp [fieldText, quote]

theorem readColon_colon (t : Text) : readColon (':' :: t) = .ok ((), t) := by
  have plain : skipSpace (':' :: t) = ':' :: t := skipSpace_of_stops (stops_cons (by decide) t)
  simp only [readColon, plain]

theorem readFields_next {key v more : Text} {a : α} {fields : List (Text × α)} {fuel : Nat} {rest : Text}
    (spells : Spells (value key) v a) (stops : Stops isNumeric more)
    (others : readFields value fuel false more = .ok (fields, rest)) :
    readFields.next value fuel (fieldText key v ++ more) = .ok ((key, a) :: fields, rest) := by
  rw [fieldText_append]
  simp only [readFields.next, readString_quoted, readColon_colon, spells more stops, others, Except.map]

theorem readFields_first {t more : Text} (begins : skipSpace t = '"' :: more) (fuel : Nat) :
    readFields value (fuel + 1) true t = readFields.next value fuel ('"' :: more) := by
  unfold readFields
  rw [begins]
  rfl

theorem readFields_comma {t more : Text} (begins : skipSpace t = '"' :: more) (fuel : Nat) :
    readFields value (fuel + 1) false (',' :: t) = readFields.next value fuel ('"' :: more) := by
  have comma : skipSpace (',' :: t) = ',' :: t := skipSpace_of_stops (stops_cons (by decide) t)
  unfold readFields
  rw [comma]
  rw [← begins]
  rfl

theorem series_readFields (value : Text → Text → Reading α) :
    Series '\x7d' (fun t f => ∃ v, t = fieldText f.1 v ∧ Spells (value f.1) v f.2) (fun _ _ => ()) (fun _ fields => fields)
      fun () => readFields value where
  other := by decide
  closes := by
    intro tail space _ fuel isFirst rest
    have skipped : skipSpace (tail ++ '\x7d' :: rest) = '\x7d' :: rest := skipSpace_begins space (by decide)
    simp only [readFields, skipped]
  first := by
    rintro lead t ⟨key, a⟩ _ fuel more fields rest space ⟨v, rfl, spells⟩ stops others
    have next := readFields_next spells stops others
    rw [← next]
    exact readFields_first (skipSpace_begins space (by decide)) fuel
  later := by
    rintro lead t ⟨key, a⟩ _ fuel more fields rest space ⟨v, rfl, spells⟩ stops others
    have next := readFields_next spells stops others
    rw [← next]
    exact readFields_comma (skipSpace_begins space (by decide)) fuel

end

/-! ## Values with parts -/

section
variable {depth : Nat} {lead tail : Text} {ts : List Text}

theorem spells_array {js : List Json} (space : Spaces lead) (space' : Spaces tail)
    (each : List.Forall₂ (fun t j => Opens t ∧ Spells (readValue depth) t j) ts js) :
    Spells (readValue (depth + 1)) ('[' :: join [','] (ts.map (lead ++ ·)) ++ tail ++ [']']) (.arr js) := by
  intro rest stops
  have enough := length_lt_of_join lead tail ts ']' rest
  rw [each.length_eq] at enough
  have items := (series_readItems (readValue depth)).read_join space space' each () rest enough
  have text : '[' :: join [','] (ts.map (lead ++ ·)) ++ tail ++ [']'] ++ rest =
      '[' :: (join [','] (ts.map (lead ++ ·)) ++ (tail ++ ']' :: rest)) := by simp
  rw [text]
  show (readItems (readValue depth) _ true _).map _ = _
  rw [items]
  rfl

theorem spells_object {fields : List (Text × Json)} (space : Spaces lead) (space' : Spaces tail)
    (each : List.Forall₂ (fun t f => ∃ v, t = fieldText f.1 v ∧ Spells (readValue depth) v f.2) ts fields) :
    Spells (readValue (depth + 1)) ('\x7b' :: join [','] (ts.map (lead ++ ·)) ++ tail ++ ['\x7d']) (.obj fields) := by
  intro rest stops
  have enough := length_lt_of_join lead tail ts '\x7d' rest
  rw [each.length_eq] at enough
  have read := (series_readFields fun _ => readValue depth).read_join space space' each () rest enough
  have text : '\x7b' :: join [','] (ts.map (lead ++ ·)) ++ tail ++ ['\x7d'] ++ rest =
      '\x7b' :: (join [','] (ts.map (lead ++ ·)) ++ (tail ++ '\x7d' :: rest)) := by simp
  rw [text]
  show (readFields (fun _ => readValue depth) _ true _).map _ = _
  rw [read]
  rfl

end

/-- The value has no number but whole ones, and arrays and objects are nested in it at most so deep. -/
def Fits : Nat → Json → Prop
  | depth + 1, .arr items => ∀ j ∈ items, j.Fits depth
  | depth + 1, .obj fields => ∀ f ∈ fields, f.2.Fits depth
  | _, j => j.IsAtom

theorem join_comma (t u : Text) (ts : List Text) :
    join [','] (t :: u :: ts) = t ++ ',' :: join [','] (u :: ts) := by
  rw [join, List.append_assoc]
  · rfl
  · simp

theorem compactItems_eq (js : List Json) : compactItems js = join [','] (js.map compact) := by
  induction js with
  | nil => rw [compactItems, List.map_nil, join]
  | cons j js ih =>
    cases js with
    | nil => rw [compactItems, List.map_singleton, join]
    | cons k js => simp only [compactItems, ih, List.map_cons, join_comma]

theorem compactFields_eq (fields : List (Text × Json)) :
    compactFields fields = join [','] (fields.map fun f => fieldText f.1 f.2.compact) := by
  induction fields with
  | nil => rw [compactFields, List.map_nil, join]
  | cons f fields ih =>
    obtain ⟨key, j⟩ := f
    cases fields with
    | nil => rw [compactFields, List.map_singleton, join, fieldText]
    | cons g fields => simp only [compactFields, ih, List.map_cons, join_comma, fieldText]

theorem prettyItems_eq (level : Nat) (js : List Json) :
    prettyItems level js = join [','] ((js.map (pretty level)).map (indent level ++ ·)) := by
  induction js with
  | nil => rw [prettyItems, List.map_nil, List.map_nil, join]
  | cons j js ih =>
    cases js with
    | nil => rw [prettyItems, List.map_singleton, List.map_singleton, join]
    | cons k js => simp only [prettyItems, ih, List.map_cons, join_comma]

theorem prettyFields_eq (level : Nat) (fields : List (Text × Json)) :
    prettyFields level fields =
      join [','] ((fields.map fun f => fieldText f.1 (' ' :: f.2.pretty level)).map (indent level ++ ·)) := by
  induction fields with
  | nil => rw [prettyFields, List.map_nil, List.map_nil, join]
  | cons f fields ih =>
    obtain ⟨key, j⟩ := f
    cases fields with
    | nil => simp only [prettyFields, List.map_cons, List.map_nil, join, fieldText, List.append_assoc]
    | cons g fields =>
      simp only [prettyFields, ih, List.map_cons, join_comma, fieldText, List.append_assoc, List.cons_append]

theorem fits_succ_cases {depth : Nat} {j : Json} (fits : j.Fits (depth + 1)) :
    (∃ js, j = .arr js ∧ ∀ k ∈ js, k.Fits depth) ∨ (∃ fields, j = .obj fields ∧ ∀ f ∈ fields, f.2.Fits depth) ∨
      j.IsAtom := by
  cases j with
  | arr js => exact .inl ⟨js, rfl, fits⟩
  | obj fields => exact .inr (.inl ⟨fields, rfl, fits⟩)
  | null | bool | whole | real | str => exact .inr (.inr fits)

theorem fits_atom {j : Json} (atom : j.IsAtom) (depth : Nat) : j.Fits depth := by
  cases depth with
  | zero => cases j <;> exact atom
  | succ depth =>
    cases j with
    | arr | obj => cases atom
    | null | bool | whole | real | str => exact atom

theorem isAtom_of_fits_zero {j : Json} (fits : j.Fits 0) : j.IsAtom := by cases j <;> exact fits

theorem opens_compact {depth : Nat} {j : Json} (fits : j.Fits depth) : Opens j.compact := by
  cases depth with
  | zero => exact opens_atom (isAtom_of_fits_zero fits)
  | succ depth =>
    obtain ⟨js, rfl, -⟩ | ⟨fields, rfl, -⟩ | atom := fits_succ_cases fits
    · rw [compact]
      exact opens_cons (by decide) (by decide) _
    · rw [compact]
      exact opens_cons (by decide) (by decide) _
    · exact opens_atom atom

theorem opens_pretty {depth : Nat} {j : Json} (fits : j.Fits depth) (level : Nat) : Opens (j.pretty level) := by
  cases depth with
  | zero =>
    have atom := isAtom_of_fits_zero fits
    rw [pretty_atom atom]
    exact opens_atom atom
  | succ depth =>
    obtain ⟨js, rfl, -⟩ | ⟨fields, rfl, -⟩ | atom := fits_succ_cases fits
    · cases js <;> rw [pretty] <;> exact opens_cons (by decide) (by decide) _
    · cases fields <;> rw [pretty] <;> exact opens_cons (by decide) (by decide) _
    · rw [pretty_atom atom]
      exact opens_atom atom

/-- A value written without any space is read as itself. -/
theorem spells_compact {depth : Nat} {j : Json} (fits : j.Fits depth) : Spells (readValue depth) j.compact j := by
  induction depth generalizing j with
  | zero => exact spells_atom (isAtom_of_fits_zero fits)
  | succ depth ih =>
    obtain ⟨js, rfl, each⟩ | ⟨fields, rfl, each⟩ | atom := fits_succ_cases fits
    · have items : List.Forall₂ (fun t j => Opens t ∧ Spells (readValue depth) t j) (js.map compact) js := by
        rw [List.forall₂_map_left_iff, List.forall₂_same]
        intro k member
        exact ⟨opens_compact (each k member), ih (each k member)⟩
      have spells := spells_array spaces_nil spaces_nil items
      rw [compact, compactItems_eq]
      simpa [Function.comp_def] using spells
    · have items : List.Forall₂ (fun t f => ∃ v, t = fieldText f.1 v ∧ Spells (readValue depth) v f.2)
          (fields.map fun f => fieldText f.1 f.2.compact) fields := by
        rw [List.forall₂_map_left_iff, List.forall₂_same]
        intro f member
        exact ⟨f.2.compact, rfl, ih (each f member)⟩
      have spells := spells_object spaces_nil spaces_nil items
      rw [compact, compactFields_eq]
      simpa [Function.comp_def] using spells
    · exact spells_atom atom

theorem spaces_blank : Spaces [' '] := by
  intro c member
  rw [List.mem_singleton.1 member]
  decide

/-- So is one on lines of its own, from whatever level on. -/
theorem spells_pretty {depth : Nat} {j : Json} (fits : j.Fits depth) (level : Nat) :
    Spells (readValue depth) (j.pretty level) j := by
  induction depth generalizing j level with
  | zero =>
    have atom := isAtom_of_fits_zero fits
    rw [pretty_atom atom]
    exact spells_atom atom
  | succ depth ih =>
    obtain ⟨js, rfl, each⟩ | ⟨fields, rfl, each⟩ | atom := fits_succ_cases fits
    · have items : List.Forall₂ (fun t j => Opens t ∧ Spells (readValue depth) t j) (js.map (pretty (level + 1))) js := by
        rw [List.forall₂_map_left_iff, List.forall₂_same]
        intro k member
        exact ⟨opens_pretty (each k member) _, ih (each k member) _⟩
      cases js with
      | nil =>
        rw [pretty]
        exact spells_array spaces_nil spaces_nil items
      | cons k js =>
        rw [pretty, prettyItems_eq]
        exact spells_array (spaces_indent _) (spaces_indent _) items
    · have items : List.Forall₂ (fun t f => ∃ v, t = fieldText f.1 v ∧ Spells (readValue depth) v f.2)
          (fields.map fun f => fieldText f.1 (' ' :: f.2.pretty (level + 1))) fields := by
        rw [List.forall₂_map_left_iff, List.forall₂_same]
        intro f member
        exact ⟨_, rfl, spells_spaces spaces_blank (ih (each f member) _)⟩
      cases fields with
      | nil =>
        rw [pretty]
        exact spells_object spaces_nil spaces_nil items
      | cons f fields =>
        rw [pretty, prettyFields_eq]
        exact spells_object (spaces_indent _) (spaces_indent _) items
    · rw [pretty_atom atom]
      exact spells_atom atom

end ProxyRouting.Json
