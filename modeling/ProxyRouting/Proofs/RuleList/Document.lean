import ProxyRouting.Proofs.Condition.Document
import ProxyRouting.RuleList.Basic

/-!
The document of a list gives the list back, and that of a single condition the list of that condition alone
(`ofJsonText_toJson`). An array of objects is no condition, since no object is the name of a kind; so the array of a
list, even an empty one, is taken for nothing but the list.
-/
namespace ProxyRouting.RuleList
open Text

theorem fits_toJson (cs : RuleList) (depth : Nat) : (toJson cs).Fits (depth + 2) := by
  intro j member
  obtain ⟨c, -, rfl⟩ := List.mem_map.1 member
  exact Condition.fits_toJson c depth

theorem ofJson?_condition (c : Condition) : ofJson? c.toJson = some [c] := by
  simp only [ofJson?, Condition.ofJson?_toJson]

theorem mapM_ofJson?_toJson (cs : RuleList) : (cs.map Condition.toJson).mapM (Condition.ofJson? .numbered) = some cs := by
  induction cs with
  | nil => rfl
  | cons c cs ih =>
    rw [List.map_cons, List.mapM_cons, Condition.ofJson?_toJson, ih]
    rfl

theorem ofJson?_toJson (cs : RuleList) : ofJson? (toJson cs) = some cs := by
  have many : Condition.ofJson? .numbered (toJson cs) = none := by cases cs <;> rfl
  unfold ofJson?
  rw [many]
  exact mapM_ofJson?_toJson cs

/-- A text that spells the value of a list is read as the list. -/
theorem ofJsonText_of_spells {t : Text} {j : Json} {cs : RuleList}
    (spells : Json.Spells (Json.readValue Json.maxDepth) t j) (value : ofJson? j = some cs) :
    ofJsonText t = .ok cs := by
  have read := spells [] (by rintro c ⟨⟩)
  rw [List.append_nil] at read
  have ended : Json.readEnd [] = .ok () := rfl
  simp only [ofJsonText, read, value, ended]

/-- What is written is read again: a list from its array, with or without space, a condition from its object, alone or
    as a list of one, and from the same fields in any order. -/
theorem ofJsonText_toJson (cs : RuleList) :
    ofJsonText (toJson cs).compact = .ok cs ∧ (∀ level, ofJsonText ((toJson cs).pretty level) = .ok cs) ∧
      ∀ c : Condition, ofJsonText c.toJson.compact = .ok [c] ∧
        (∀ level, ofJsonText (c.toJson.pretty level) = .ok [c]) ∧
        Condition.ofJsonText c.toJson.compact = .ok c ∧
        (∀ level, Condition.ofJsonText (c.toJson.pretty level) = .ok c) ∧
        ∀ form fields written, c.toJson = .obj written → fields.Perm written →
          Condition.ofJson? form (.obj fields) = some c := by
  have list := fits_toJson cs 125
  refine ⟨ofJsonText_of_spells (Json.spells_compact list) (ofJson?_toJson cs), ?_, ?_⟩
  · intro level
    exact ofJsonText_of_spells (Json.spells_pretty list level) (ofJson?_toJson cs)
  · intro c
    have single := Condition.fits_toJson c 126
    refine ⟨ofJsonText_of_spells (Json.spells_compact single) (ofJson?_condition c), ?_,
      Condition.ofJsonText_compact c, Condition.ofJsonText_pretty c, ?_⟩
    · intro level
      exact ofJsonText_of_spells (Json.spells_pretty single level) (ofJson?_condition c)
    · intro form fields written document same
      cases document
      exact Condition.ofJson?_of_perm same form

/-- A range of days, whose object has no mask and its fields the other way around. -/
theorem ofJsonText_toJson_reversed :
    Condition.ofJson? .named (.obj [("conditionType".toList, .str "WeekdayCondition".toList),
      ("startDay".toList, .whole 1), ("endDay".toList, .whole 5)].reverse) = some (.weekday none 1 5) :=
  ((ofJsonText_toJson []).2.2 (.weekday none 1 5)).2.2.2.2 .named _ _ rfl (List.reverse_perm _)

end ProxyRouting.RuleList
