import Mathlib.Data.List.Perm.Basic
import ProxyRouting.Condition.Document
import ProxyRouting.Proofs.Condition.Tag
import ProxyRouting.Proofs.Json.Reading

/-!
The document of a condition gives the condition back (`ofJson?_of_perm`). The keys of a kind are distinct, so each
field of an object is found by its key wherever it stands; one that is absent is left out of the document and takes
the default that leaves it out. The reader that takes a document field by field, without a value of the whole, finds
the same condition (`ofJsonText_compact`, `ofJsonText_pretty`).
-/
namespace ProxyRouting.Condition
open Text

/-- The fields that are there, each by its key. -/
def written (keys : List Text) (values : List (Option Json)) : List (Text × Json) :=
  (keys.zip values).filterMap fun (key, value) => value.map fun j => (key, j)

/-- The fields of the document of a condition, the kind first. -/
def toFields (c : Condition) : List (Text × Json) := (kindKey, .str c.kind.name) :: written (fieldKeys c.kind) c.fieldValues

theorem toJson_eq (c : Condition) : c.toJson = .obj c.toFields := rfl

theorem fieldOnce?_other {key other : Text} (apart : other ≠ key) (j : Json) (fields : List (Text × Json)) :
    fieldOnce? ((other, j) :: fields) key = fieldOnce? fields key := by
  simp [fieldOnce?, apart]

theorem fieldOnce?_absent {key : Text} {fields : List (Text × Json)} (absent : ∀ f ∈ fields, f.1 ≠ key) :
    fieldOnce? fields key = some none := by
  have none : (fields.filter fun f => f.1 = key) = [] := by simpa [List.filter_eq_nil_iff] using absent
  simp only [fieldOnce?, none]

theorem fieldOnce?_first {key : Text} {fields : List (Text × Json)} (absent : ∀ f ∈ fields, f.1 ≠ key) (j : Json) :
    fieldOnce? ((key, j) :: fields) key = some (some j) := by
  have none : (fields.filter fun f => f.1 = key) = [] := by simpa [List.filter_eq_nil_iff] using absent
  simp [fieldOnce?, none]

/-- The order of the fields does not matter. -/
theorem fieldOnce?_perm {fields fields' : List (Text × Json)} (same : fields.Perm fields') (key : Text) :
    fieldOnce? fields key = fieldOnce? fields' key := by
  have found := same.filter fun f => f.1 = key
  unfold fieldOnce?
  generalize fields.filter (fun f => f.1 = key) = found₁ at found ⊢
  generalize fields'.filter (fun f => f.1 = key) = found₂ at found ⊢
  match found₁ with
  | [] => rw [found.nil_eq]
  | [f] => rw [List.singleton_perm.1 found]
  | f :: g :: more =>
    have size := found.length_eq
    match found₂ with
    | [] => simp at size
    | [f'] => simp at size
    | f' :: g' :: more' => rfl

theorem mem_of_mem_written {keys : List Text} {values : List (Option Json)} {f : Text × Json}
    (member : f ∈ written keys values) : f.1 ∈ keys ∧ some f.2 ∈ values := by
  obtain ⟨⟨key, value⟩, inside, present⟩ := List.mem_filterMap.1 member
  obtain ⟨j, rfl, rfl⟩ := Option.map_eq_some_iff.1 present
  exact List.of_mem_zip inside

theorem written_cons (key : Text) (keys : List Text) (value : Option Json) (values : List (Option Json)) :
    written (key :: keys) (value :: values) = (value.map fun j => (key, j)).toList ++ written keys values := by
  cases value <;> rfl

/-- Among distinct keys every value is found again by its key, an absent one as absent. -/
theorem mapM_fieldOnce?_written {keys : List Text} {values : List (Option Json)} (distinct : keys.Nodup)
    (sizes : keys.length = values.length) {fields : List (Text × Json)}
    (same : ∀ key ∈ keys, fieldOnce? fields key = fieldOnce? (written keys values) key) :
    keys.mapM (fieldOnce? fields) = some values := by
  -- `fields` stays as it is, while the keys and the values that it is compared with get fewer
  induction keys generalizing values with
  | nil =>
    cases values with
    | nil => rfl
    | cons value values => cases sizes
  | cons key keys ih =>
    cases values with
    | nil => cases sizes
    | cons value values =>
      obtain ⟨fresh, distinct⟩ := List.nodup_cons.1 distinct
      have absent : ∀ f ∈ written keys values, f.1 ≠ key := by
        rintro f member rfl
        exact fresh (mem_of_mem_written member).1
      have found : fieldOnce? fields key = some value := by
        rw [same key List.mem_cons_self, written_cons]
        cases value with
        | none => exact fieldOnce?_absent absent
        | some j => exact fieldOnce?_first absent j
      have others : keys.mapM (fieldOnce? fields) = some values := by
        apply ih distinct (Nat.succ.inj sizes)
        intro k member
        rw [same k (List.mem_cons_of_mem key member), written_cons]
        cases value with
        | none => rfl
        | some j =>
          apply fieldOnce?_other
          rintro rfl
          exact fresh member
      rw [List.mapM_cons, found, others]
      rfl

theorem number?_numberField {limit n : Nat} (small : n < limit) : number? limit (numberField n) = some n := by
  have within : (0 : Int) ≤ n ∧ (n : Int) < limit := by omega
  simp only [numberField, number?, if_pos within, Int.toNat_natCast]

theorem byte?_numberField (b : UInt8) : byte? (numberField b.toNat) = some b := by
  rw [byte?, number?_numberField b.toNat_lt, Option.map_some, UInt8.ofNat_toNat]

theorem byteOrZero?_numberField (b : UInt8) : byteOrZero? (numberField b.toNat) = some b := byte?_numberField b

theorem word?_numberField (w : UInt32) : word? (numberField w.toNat) = some w := by
  rw [word?, number?_numberField w.toNat_lt, Option.map_some, UInt32.ofNat_toNat]

theorem optionalText?_map (t : Option Text) : optionalText? (t.map .str) = some t := by cases t <;> rfl

theorem ofFields?_fieldValues (c : Condition) : ofFields? c.kind c.fieldValues = some c := by
  cases c with
  | always | urlRegex | urlWildcard | hostRegex | hostWildcard | bypass | keyword => rfl
  | never note =>
    simp only [kind, fieldValues, ofFields?, optionalText?_map, Option.map_some]
  | ip address length =>
    simp only [kind, fieldValues, ofFields?, textField, text?, byte?_numberField, Option.bind_eq_bind, Option.bind_some]
  | hostLevels min max =>
    simp only [kind, fieldValues, ofFields?, word?_numberField, Option.bind_eq_bind, Option.bind_some]
  | weekday mask first last =>
    simp only [kind, fieldValues, ofFields?, optionalText?_map, byteOrZero?_numberField, Option.bind_eq_bind,
      Option.bind_some]
  | time first last =>
    simp only [kind, fieldValues, ofFields?, byte?_numberField, Option.bind_eq_bind, Option.bind_some]

theorem nodup_fieldKeys (k : ConditionKind) : (fieldKeys k).Nodup := by cases k <;> decide

theorem kindKey_ne_of_mem {k : ConditionKind} {key : Text} (member : key ∈ fieldKeys k) : kindKey ≠ key := by
  have apart : kindKey ∉ fieldKeys k := by cases k <;> decide
  rintro rfl
  exact apart member

theorem length_fieldValues (c : Condition) : (fieldKeys c.kind).length = c.fieldValues.length := by cases c <;> rfl

theorem kindOf?_name (form : KindForm) (k : ConditionKind) : kindOf? form (.str k.name) = some k :=
  ConditionKind.ofName?_name k

/-- Fields that give the same values by the keys of a condition's kind give the condition. -/
theorem ofObject?_of_same {c : Condition} {fields : List (Text × Json)}
    (same : ∀ key ∈ fieldKeys c.kind, fieldOnce? fields key = fieldOnce? (written (fieldKeys c.kind) c.fieldValues) key) :
    ofObject? c.kind fields = some c := by
  have values := mapM_fieldOnce?_written (nodup_fieldKeys c.kind) (length_fieldValues c) same
  rw [ofObject?, values, Option.bind_some, ofFields?_fieldValues]

/-- The fields of a condition's document give the condition, whatever order they are in. -/
theorem ofJson?_of_perm {c : Condition} {fields : List (Text × Json)} (same : fields.Perm c.toFields) (form : KindForm) :
    ofJson? form (.obj fields) = some c := by
  have kind : fieldOnce? fields kindKey = some (some (.str c.kind.name)) := by
    rw [fieldOnce?_perm same]
    apply fieldOnce?_first
    intro f member
    exact (kindKey_ne_of_mem (mem_of_mem_written member).1).symm
  have others : ofObject? c.kind fields = some c := by
    apply ofObject?_of_same
    intro key member
    rw [fieldOnce?_perm same]
    exact fieldOnce?_other (kindKey_ne_of_mem member) _ _
  simp only [ofJson?, kind, Option.bind_eq_bind, Option.bind_some, kindOf?_name, others]

theorem ofJson?_toJson (c : Condition) (form : KindForm) : ofJson? form c.toJson = some c :=
  ofJson?_of_perm (List.Perm.refl _) form

/-- The value of a field, if there is one, has no parts. -/
def IsPlain (value : Option Json) : Prop := ∀ j, value = some j → j.IsAtom

theorem isPlain_textField (t : Text) : IsPlain (textField t) := by
  rintro j ⟨⟩
  exact trivial

theorem isPlain_numberField (n : Nat) : IsPlain (numberField n) := by
  rintro j ⟨⟩
  exact trivial

theorem isPlain_map (t : Option Text) : IsPlain (t.map .str) := by
  cases t with
  | none => rintro j ⟨⟩
  | some t => exact isPlain_textField t

theorem isPlain_of_mem_fieldValues (c : Condition) : ∀ value ∈ c.fieldValues, IsPlain value := by
  cases c <;> simp only [fieldValues, List.forall_mem_cons, List.not_mem_nil, false_implies, implies_true, and_self,
    isPlain_textField, isPlain_numberField, isPlain_map]

/-- The document of a condition is one object, with neither arrays nor objects in it. -/
theorem fits_toJson (c : Condition) (depth : Nat) : c.toJson.Fits (depth + 1) := by
  intro f member
  apply Json.fits_atom
  rcases List.mem_cons.1 member with rfl | inside
  · exact trivial
  · exact isPlain_of_mem_fieldValues c _ (mem_of_mem_written inside).2 _ rfl

section
variable {lead tail : Text}

theorem readFields_first {draft : Draft} {t more : Text} (begins : Json.skipSpace t = '"' :: more) (fuel : Nat) :
    readFields (fuel + 1) true draft t = readFields.next fuel draft ('"' :: more) := by
  unfold readFields
  rw [begins]
  rfl

theorem readFields_comma {draft : Draft} {t more : Text} (begins : Json.skipSpace t = '"' :: more) (fuel : Nat) :
    readFields (fuel + 1) false draft (',' :: t) = readFields.next fuel draft ('"' :: more) := by
  have comma : Json.skipSpace (',' :: t) = ',' :: t := Json.skipSpace_of_stops (stops_cons (by decide) t)
  unfold readFields
  rw [comma, ← begins]
  rfl

/-- A field with another key than the kind's is kept with those before it. -/
theorem readFields_next {kind : Option ConditionKind} {before : List (Text × Json)} {key v more : Text} {j : Json}
    {fuel : Nat} {read : Json.Reading Draft} (other : key ≠ kindKey)
    (spells : Json.Spells (Json.readValue (Json.maxDepth - 1)) v j) (stops : Stops Json.isNumeric more)
    (others : readFields fuel false (kind, (key, j) :: before) more = read) :
    readFields.next fuel (kind, before) (Json.fieldText key v ++ more) = read := by
  rw [Json.fieldText_append]
  simp only [readFields.next, Json.readString_quoted, readField, if_neg other, Json.readColon_colon,
    spells more stops, others, Except.map]

theorem series_readFields :
    Json.Series '\x7d'
      (fun t f => f.1 ≠ kindKey ∧ ∃ v, t = Json.fieldText f.1 v ∧ Json.Spells (Json.readValue (Json.maxDepth - 1)) v f.2)
      (fun draft f => (draft.1, f :: draft.2)) (fun draft fields => (draft.1, fields.reverse ++ draft.2))
      fun draft fuel isFirst => readFields fuel isFirst draft where
  other := by decide
  closes := by
    intro tail space draft fuel isFirst rest
    have skipped : Json.skipSpace (tail ++ '\x7d' :: rest) = '\x7d' :: rest := Json.skipSpace_begins space (by decide)
    simp only [readFields, skipped, List.reverse_nil, List.nil_append]
  first := by
    rintro lead t ⟨key, j⟩ ⟨kind, before⟩ fuel more fields rest space ⟨other, v, rfl, spells⟩ stops others
    have next := readFields_next other spells stops others
    rw [List.reverse_cons, List.append_assoc]
    exact (readFields_first (Json.skipSpace_begins space (by decide)) fuel).trans next
  later := by
    rintro lead t ⟨key, j⟩ ⟨kind, before⟩ fuel more fields rest space ⟨other, v, rfl, spells⟩ stops others
    have next := readFields_next other spells stops others
    rw [List.reverse_cons, List.append_assoc]
    exact (readFields_comma (Json.skipSpace_begins space (by decide)) fuel).trans next

/-- The kind is read from the text of its name. -/
theorem readFields_kind {v : Text} {k : ConditionKind} {fuel : Nat} {more : Text} (space : Json.Spaces lead)
    (spells : ∀ array object, Json.Spells (Json.readWith array object) v (.str k.name))
    (stops : Stops Json.isNumeric more) :
    readFields (fuel + 1) true (none, []) (lead ++ (Json.fieldText kindKey v ++ more)) =
      readFields fuel false (some k, []) more := by
  have named : readKind (v ++ more) = .ok (k, more) := by
    simp only [readKind, spells _ _ more stops, kindOf?_name, Option.elim]
  rw [Json.fieldText_append]
  refine (readFields_first (Json.skipSpace_begins space (by decide)) fuel).trans ?_
  simp only [readFields.next, Json.readString_quoted, readField, ↓reduceIte, Json.readColon_colon, named, Except.map]

/-- The object of a condition is read as the condition, whatever space is in front of its fields and their values and
    behind the last one. -/
theorem readJson_object {write : Json → Text} (space : Json.Spaces lead) (space' : Json.Spaces tail)
    (spelled : ∀ j : Json, j.IsAtom → ∀ array object, Json.Spells (Json.readWith array object) (write j) j)
    (c : Condition) (rest : Text) :
    readJson ('\x7b' :: (join [','] ((c.toFields.map fun f => Json.fieldText f.1 (write f.2)).map (lead ++ ·)) ++
      (tail ++ '\x7d' :: rest))) = .ok (c, rest) := by
  let others := written (fieldKeys c.kind) c.fieldValues
  let ts := others.map fun f => Json.fieldText f.1 (write f.2)
  let kindText := Json.fieldText kindKey (write (.str c.kind.name))
  have each : List.Forall₂ (fun t f => f.1 ≠ kindKey ∧
      ∃ v, t = Json.fieldText f.1 v ∧ Json.Spells (Json.readValue (Json.maxDepth - 1)) v f.2) ts others := by
    rw [List.forall₂_map_left_iff, List.forall₂_same]
    intro f member
    have apart := kindKey_ne_of_mem (mem_of_mem_written member).1
    have atom := isPlain_of_mem_fieldValues c _ (mem_of_mem_written member).2 _ rfl
    exact ⟨apart.symm, write f.2, rfl, spelled f.2 atom _ _⟩
  -- the steps are counted by the length of the text, and the kind takes the first one
  have enough := Json.length_lt_of_join lead tail (kindText :: ts) '\x7d' rest
  rw [List.length_cons, Nat.add_lt_add_iff_right, each.length_eq] at enough
  have stops := Json.stops_behindCommas lead space' series_readFields.other ts rest
  have read := (readFields_kind space (spelled _ trivial) stops).trans
    (series_readFields.read_behindCommas space space' each (some c.kind, []) rest enough)
  have object : ofObject? c.kind others.reverse = some c := by
    apply ofObject?_of_same
    intro key _
    exact fieldOnce?_perm others.reverse_perm key
  have text : join [','] ((kindText :: ts).map (lead ++ ·)) ++ (tail ++ '\x7d' :: rest) =
      lead ++ (kindText ++ (Json.behindCommas lead ts ++ (tail ++ '\x7d' :: rest))) := by
    rw [Json.join_lead, List.append_assoc, List.append_assoc]
  rw [← text] at read
  show readJson ('\x7b' :: (join [','] ((kindText :: ts).map (lead ++ ·)) ++ (tail ++ '\x7d' :: rest))) = _
  generalize join [','] ((kindText :: ts).map (lead ++ ·)) ++ (tail ++ '\x7d' :: rest) = t at read ⊢
  have opened : Json.skipSpace ('\x7b' :: t) = '\x7b' :: t := Json.skipSpace_of_stops (stops_cons (by decide) t)
  simp only [readJson, opened, read, List.append_nil, Option.bind_some, object, Option.elim]

end

/-- Nothing but the condition is read from its document, written without any space. -/
theorem ofJsonText_compact (c : Condition) : ofJsonText c.toJson.compact = .ok c := by
  have spelled : ∀ j : Json, j.IsAtom → ∀ array object, Json.Spells (Json.readWith array object) j.compact j := by
    intro j atom array object
    exact Json.spells_atom atom
  have read := readJson_object Json.spaces_nil Json.spaces_nil spelled c []
  have text : c.toJson.compact = '\x7b' :: (join [','] ((c.toFields.map fun f => Json.fieldText f.1 f.2.compact).map
      (([] : Text) ++ ·)) ++ ([] ++ ['\x7d'])) := by
    rw [toJson_eq, Json.compact, Json.compactFields_eq]
    simp [Function.comp_def]
  rw [ofJsonText, text, read]
  rfl

/-- So it is from the document on lines of its own. -/
theorem ofJsonText_pretty (c : Condition) (level : Nat) : ofJsonText (c.toJson.pretty level) = .ok c := by
  have spelled : ∀ j : Json, j.IsAtom → ∀ array object,
      Json.Spells (Json.readWith array object) (' ' :: j.pretty (level + 1)) j := by
    intro j atom array object rest stops
    have blank (t : Text) : Json.readWith array object ([' '] ++ t) = Json.readWith array object t :=
      Json.readWith_spaces Json.spaces_blank t
    rw [Json.pretty_atom atom]
    exact (blank _).trans (Json.spells_atom atom rest stops)
  have read := readJson_object (Json.spaces_indent (level + 1)) (Json.spaces_indent level) spelled c []
  have text : c.toJson.pretty level = '\x7b' :: (join [','] ((c.toFields.map fun f =>
      Json.fieldText f.1 (' ' :: f.2.pretty (level + 1))).map (Json.indent (level + 1) ++ ·)) ++
      (Json.indent level ++ ['\x7d'])) := by
    rw [toJson_eq, toFields, Json.pretty, Json.prettyFields_eq, List.append_assoc, List.cons_append]
  rw [ofJsonText, text, read]
  rfl

end ProxyRouting.Condition
