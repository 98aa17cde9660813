import ProxyRouting.Proofs.Regex.Reading

/-!
Escaped slashes. Between the slashes of a literal every slash of a source is escaped, and reading the
literal takes all such escapes back, those included that the source had of its own. A source and the same
source without them are read as the same pattern (`compile_unescapeSlashes`): every reader does the same
on both, and leaves of the one what it leaves of the other.
-/
namespace ProxyRouting.Regex

theorem unescape_plain {c : Char} (plain : c ≠ '\\') (t : Text) :
    unescapeSlashes (c :: t) = c :: unescapeSlashes t := by
  conv_lhs => unfold unescapeSlashes
  split <;> simp_all

theorem unescape_slash (t : Text) : unescapeSlashes ('\\' :: '/' :: t) = '/' :: unescapeSlashes t := by
  simp [unescapeSlashes]

theorem unescape_escape {c : Char} (kept : c ≠ '/') (t : Text) :
    unescapeSlashes ('\\' :: c :: t) = '\\' :: c :: unescapeSlashes t := by
  simp [unescapeSlashes, kept]

/-- Escaping slashes changes nothing that reading the literal does not take back. -/
theorem unescape_escapeSlashes (t : Text) : unescapeSlashes (escapeSlashes t) = unescapeSlashes t := by
  unfold escapeSlashes
  fun_induction unescapeSlashes t with
  | case1 => rfl
  | case2 => rfl
  | case3 t ih =>
    simpa [escapeSlashesFrom, unescape_slash] using ih
  | case4 c t kept ih =>
    simpa [escapeSlashesFrom, unescape_escape kept] using ih
  | case5 c t lone escape ih =>
    have plain : c ≠ '\\' := by
      rintro rfl
      cases t with
      | nil => exact lone rfl rfl
      | cons d t => exact escape d t rfl rfl
    by_cases slash : c = '/'
    · subst slash
      simpa [escapeSlashesFrom, unescape_slash] using ih
    · simpa [escapeSlashesFrom, slash, plain, unescape_plain plain] using ih

/-- How a text begins, and how it does without escaped slashes. -/
inductive Begins : Char → Text → Char → Text → Prop
  | plain {c : Char} {t : Text} (plain : c ≠ '\\') : Begins c t c (unescapeSlashes t)
  | lone : Begins '\\' [] '\\' []
  | slash {t : Text} : Begins '\\' ('/' :: t) '/' (unescapeSlashes t)
  | escape {c : Char} {t : Text} (kept : c ≠ '/') : Begins '\\' (c :: t) '\\' (c :: unescapeSlashes t)

theorem begins (c : Char) (t : Text) : ∃ d u, unescapeSlashes (c :: t) = d :: u ∧ Begins c t d u := by
  by_cases plain : c = '\\'
  · subst plain
    cases t with
    | nil => exact ⟨_, _, rfl, .lone⟩
    | cons c t =>
      by_cases slash : c = '/'
      · subst slash
        exact ⟨_, _, unescape_slash t, .slash⟩
      · exact ⟨_, _, unescape_escape slash t, .escape slash⟩
  · exact ⟨_, _, unescape_plain plain t, .plain plain⟩

/-- A text begins with a character other than these two just when it does without escaped slashes. -/
theorem starts_unescape {c : Char} (backslash : c ≠ '\\') (slash : c ≠ '/') {t : Text} :
    (∃ rest, unescapeSlashes t = c :: rest) ↔ ∃ rest, t = c :: rest := by
  constructor
  · rintro ⟨rest, same⟩
    cases t with
    | nil => cases same
    | cons d t =>
      obtain ⟨e, u, starts, begun⟩ := begins d t
      obtain ⟨head, tail⟩ := List.cons.inj (starts.symm.trans same)
      subst head
      cases begun with
      | plain plain => exact ⟨t, rfl⟩
      | lone => exact absurd rfl backslash
      | slash => exact absurd rfl slash
      | escape kept => exact absurd rfl backslash
  · rintro ⟨rest, rfl⟩
    exact ⟨_, unescape_plain backslash rest⟩

/-- Neither a backslash nor a slash is of the kind. -/
structure Solid (kind : Char → Bool) : Prop where
  backslash : kind '\\' = false
  slash : kind '/' = false

theorem takeWhile_unescape {kind : Char → Bool} (solid : Solid kind) (t : Text) :
    (unescapeSlashes t).takeWhile kind = t.takeWhile kind := by
  induction t with
  | nil => rfl
  | cons c t ih =>
    obtain ⟨d, u, starts, begun⟩ := begins c t
    rw [starts]
    cases begun with
    | plain plain => simp [List.takeWhile_cons, ih]
    | lone => rfl
    | slash => simp [solid.backslash, solid.slash]
    | escape kept => simp [solid.backslash]

theorem dropWhile_unescape {kind : Char → Bool} (solid : Solid kind) (t : Text) :
    (unescapeSlashes t).dropWhile kind = unescapeSlashes (t.dropWhile kind) := by
  induction t with
  | nil => rfl
  | cons c t ih =>
    obtain ⟨d, u, starts, begun⟩ := begins c t
    cases begun with
    | plain plain =>
      rw [starts, List.dropWhile_cons, List.dropWhile_cons]
      split
      · exact ih
      · exact starts.symm
    | lone => rw [starts]; simp [solid.backslash, unescapeSlashes]
    | slash => rw [starts]; simp [solid.backslash, solid.slash, unescape_slash]
    | escape kept => rw [starts]; simp [solid.backslash, unescape_escape kept]

theorem solid_isDigit : Solid Char.isDigit := ⟨by decide, by decide⟩

/-! ## Readers that cannot fail loudly -/

/-- What a reader found, and without escaped slashes what it left. -/
abbrev unescapeRest {α : Type} : α × Text → α × Text := Prod.map id unescapeSlashes

theorem nameTail?_unescape (t : Text) : nameTail? (unescapeSlashes t) = (nameTail? t).map unescapeRest := by
  induction t with
  | nil => rfl
  | cons c t ih =>
    obtain ⟨d, u, starts, begun⟩ := begins c t
    rw [starts]
    cases begun with
    | plain plain =>
      rw [nameTail?, nameTail?, ih]
      split
      · rfl
      · split <;> simp [Function.comp_def]
    | _ => simp [nameTail?, isNameStart]

theorem groupName?_unescape (t : Text) : groupName? (unescapeSlashes t) = (groupName? t).map unescapeRest := by
  cases t with
  | nil => rfl
  | cons c t =>
    obtain ⟨d, u, starts, begun⟩ := begins c t
    rw [starts]
    cases begun with
    | plain plain =>
      rw [groupName?, groupName?, nameTail?_unescape]
      split <;> simp [Function.comp_def]
    | _ => simp [groupName?, isNameStart]

theorem hexDigits?_unescape (count : Nat) (t : Text) :
    Text.hexDigits? count (unescapeSlashes t) = (Text.hexDigits? count t).map unescapeRest := by
  have go (value : Nat) : Text.hexDigits?.go count value (unescapeSlashes t) =
      (Text.hexDigits?.go count value t).map unescapeRest := by
    induction count generalizing value t with
    | zero => simp [Text.hexDigits?.go]
    | succ count ih =>
      cases t with
      | nil => rfl
      | cons c t =>
        obtain ⟨d, u, starts, begun⟩ := begins c t
        rw [starts]
        cases begun with
        | plain plain =>
          rw [Text.hexDigits?.go, Text.hexDigits?.go]
          cases Text.hexValue? c with
          | none => rfl
          | some digit => exact ih t _
        | _ => rfl
  exact go 0

theorem octalTail_unescape (count value : Nat) (t : Text) :
    octalTail count value (unescapeSlashes t) = unescapeRest (octalTail count value t) := by
  induction count generalizing value t with
  | zero => rfl
  | succ count ih =>
    cases t with
    | nil => rfl
    | cons c t =>
      obtain ⟨d, u, starts, begun⟩ := begins c t
      rw [starts]
      cases begun with
      | plain plain =>
        rw [octalTail, octalTail]
        split
        · exact ih _ _
        · exact congrArg (Prod.mk value) starts.symm
      | lone => rfl
      | slash => exact congrArg (Prod.mk value) starts.symm
      | escape kept => exact congrArg (Prod.mk value) starts.symm

theorem braces?_unescape (t : Text) : braces? (unescapeSlashes t) = (braces? t).map unescapeRest := by
  unfold braces?
  simp only [takeWhile_unescape solid_isDigit, dropWhile_unescape solid_isDigit]
  split
  · rfl
  · generalize t.dropWhile Char.isDigit = t
    cases t with
    | nil => rfl
    | cons c t =>
      obtain ⟨d, u, starts, begun⟩ := begins c t
      rw [starts]
      cases begun with
      | plain plain =>
        split
        · next close => cases close; rfl
        · next comma =>
          cases comma
          simp only [takeWhile_unescape solid_isDigit, dropWhile_unescape solid_isDigit]
          generalize t.dropWhile Char.isDigit = t
          cases t with
          | nil => rfl
          | cons c t =>
            obtain ⟨d, u, starts, begun⟩ := begins c t
            rw [starts]
            cases begun with
            | plain plain =>
              split
              · next close => cases close; rfl
              · split <;> simp_all
            | _ => rfl
        · split <;> simp_all
      | _ => rfl

theorem startsQuantifier_unescape (t : Text) : startsQuantifier (unescapeSlashes t) = startsQuantifier t := by
  cases t with
  | nil => rfl
  | cons c t =>
    obtain ⟨d, u, starts, begun⟩ := begins c t
    rw [starts]
    cases begun with
    | plain plain =>
      unfold startsQuantifier
      split
      · next star => cases star; rfl
      · next plus => cases plus; rfl
      · next mark => cases mark; rfl
      · next brace => cases brace; simp [braces?_unescape]
      · split <;> simp_all
    | _ => rfl

theorem lazyMark_unescape (t : Text) : lazyMark (unescapeSlashes t) = unescapeRest (lazyMark t) := by
  cases t with
  | nil => rfl
  | cons c t =>
    obtain ⟨d, u, starts, begun⟩ := begins c t
    rw [starts]
    cases begun with
    | plain plain =>
      unfold lazyMark
      split
      · next mark => cases mark; rfl
      · split
        · simp_all
        · exact congrArg (Prod.mk false) starts.symm
    | _ => exact congrArg (Prod.mk false) starts.symm

theorem lowHalf_unescape (joined : Nat → Char) (found : Option (Nat × Text)) :
    (match found.map unescapeRest with
      | some (low, rest) => if 0xDC00 ≤ low ∧ low ≤ 0xDFFF then some (joined low, rest) else none
      | none => none) =
    (match found with
      | some (low, rest) => if 0xDC00 ≤ low ∧ low ≤ 0xDFFF then some (joined low, rest) else none
      | none => none).map unescapeRest := by
  cases found with
  | none => rfl
  | some found =>
    simp only [Option.map_some, Prod.map_fst, Prod.map_snd, id_eq]
    split <;> rfl

theorem unitChar?_unescape (unit : Nat) (t : Text) :
    unitChar? unit (unescapeSlashes t) = (unitChar? unit t).map unescapeRest := by
  unfold unitChar?
  split
  · split
    · cases t with
      | nil => rfl
      | cons c t =>
        obtain ⟨d, u, starts, begun⟩ := begins c t
        rw [starts]
        cases begun with
        | plain plain => split <;> simp_all
        | @escape c t kept =>
          by_cases isUnit : c = 'u'
          · subst isUnit
            simp only [hexDigits?_unescape]
            exact lowHalf_unescape (fun low => Char.ofNat (0x10000 + (unit - 0xD800) * 0x400 + (low - 0xDC00))) _
          · split <;> simp_all
        | _ => rfl
    · rfl
  · rfl

theorem backref?_unescape (captures : Captures) (c : Char) (t : Text) :
    backref? captures c (unescapeSlashes t) = (backref? captures c t).map unescapeRest := by
  simp only [backref?, takeWhile_unescape solid_isDigit, dropWhile_unescape solid_isDigit]
  split
  · split <;> rfl
  · rfl

/-! ## Readers that refuse -/

/-- Both readers found the same and left the same, escaped slashes aside, or both refused. -/
inductive Agree {α : Type} (same : α → α → Prop) : Except Fault (α × Text) → Except Fault (α × Text) → Prop
  | ok {a b : α} (rest : Text) (found : same a b) : Agree same (.ok (a, rest)) (.ok (b, unescapeSlashes rest))
  | error (f g : Fault) : Agree same (.error f) (.error g)

theorem Agree.imp {α : Type} {same same' : α → α → Prop} {x y : Except Fault (α × Text)}
    (weaker : ∀ a b, same a b → same' a b) (agree : Agree same x y) : Agree same' x y := by
  cases agree with
  | ok rest found => exact .ok rest (weaker _ _ found)
  | error f g => exact .error f g

/-- A control letter is no slash, and without one the `c` is read again. -/
theorem charEscape_control_agree (offset other : Nat) (t : Text) :
    Agree Eq (charEscape offset 'c' t) (charEscape other 'c' (unescapeSlashes t)) := by
  have unread {offset : Nat} {t : Text} (letter : ∀ d ∈ t.head?, d.isAlpha = false) :
      charEscape offset 'c' t = .ok ('\\', 'c' :: t) := by
    cases t with
    | nil => rfl
    | cons d t => exact if_neg (by simp [letter d rfl])
  have again (t : Text) : 'c' :: unescapeSlashes t = unescapeSlashes ('c' :: t) := (unescape_plain (by decide) _).symm
  cases t with
  | nil => exact .ok ['c'] rfl
  | cons c t =>
    obtain ⟨d, u, starts, begun⟩ := begins c t
    by_cases letter : c.isAlpha = true
    · have plain : c ≠ '\\' := by
        rintro rfl
        exact absurd letter (by decide)
      have read (offset : Nat) (t : Text) : charEscape offset 'c' (c :: t) = .ok (Char.ofNat (c.toNat % 32), t) :=
        if_pos letter
      rw [unescape_plain plain, read, read]
      exact .ok t rfl
    · have none : c.isAlpha = false := Bool.eq_false_iff.2 letter
      have none' : d.isAlpha = false := by cases begun <;> simp_all
      rw [unread (by simpa using none), unread (by simpa [starts] using none'), again]
      exact .ok _ rfl

theorem charEscape_agree (offset other : Nat) (c : Char) (t : Text) :
    Agree Eq (charEscape offset c t) (charEscape other c (unescapeSlashes t)) := by
  by_cases control : c = 'c'
  · subst control
    exact charEscape_control_agree offset other t
  unfold charEscape
  split
  · exact .ok t rfl
  · split
    · next digit _ =>
      simp only [octalTail_unescape]
      exact .ok _ rfl
    · split
      · rw [hexDigits?_unescape]
        cases Text.hexDigits? 2 t with
        | none => exact .ok t rfl
        | some found => exact .ok found.2 rfl
      · split
        · rw [hexDigits?_unescape]
          cases Text.hexDigits? 4 t with
          | none => exact .ok t rfl
          | some found =>
            obtain ⟨unit, rest⟩ := found
            simp only [Option.map_some, Prod.map_apply, id_eq, unitChar?_unescape]
            cases unitChar? unit rest with
            | none => exact .error _ _
            | some read => exact .ok read.2 rfl
        · exact .ok t rfl

theorem readAtom_agree (offset other : Nat) {c d : Char} {t u : Text} (begun : Begins c t d u) :
    Agree Eq (readAtom offset c t) (readAtom other d u) := by
  cases begun with
  | plain plain => simp only [readAtom, plain, ↓reduceIte]; exact .ok t rfl
  | lone => exact .error _ _
  | @slash t => exact .ok t rfl
  | @escape c t kept =>
    simp only [readAtom, ↓reduceIte]
    split
    · exact .ok t rfl
    · split
      · exact .ok t rfl
      · have read := charEscape_agree offset other c t
        generalize charEscape offset c t = one, charEscape other c (unescapeSlashes t) = two at read ⊢
        cases read with
        | ok rest found => subst found; exact .ok rest rfl
        | error f g => exact .error f g

theorem dashItem_agree (offset other : Nat) (a b : Atom) :
    (∃ item, dashItem offset a b = .ok item ∧ dashItem other a b = .ok item) ∨
      ∃ f g, dashItem offset a b = .error f ∧ dashItem other a b = .error g := by
  unfold dashItem
  split
  · split
    · exact .inr ⟨_, _, rfl, rfl⟩
    · exact .inl ⟨_, rfl, rfl⟩
  · exact .inl ⟨_, rfl, rfl⟩

theorem dashed_unescape {t : Text} : Dashed (unescapeSlashes t) ↔ Dashed t := by
  have behind (d : Char) (t : Text) :
      ∃ e u, unescapeSlashes ('-' :: d :: t) = '-' :: e :: u ∧ (e = ']' ↔ d = ']') := by
    obtain ⟨e, u, starts, begun⟩ := begins d t
    exact ⟨e, u, by rw [unescape_plain (by decide), starts], by cases begun <;> simp⟩
  constructor
  · rintro ⟨e, u, same, inside⟩
    obtain ⟨t, rfl⟩ := (starts_unescape (by decide) (by decide)).1 ⟨_, same⟩
    cases t with
    | nil => cases same
    | cons d t =>
      obtain ⟨e', u', same', closes⟩ := behind d t
      obtain ⟨rfl, -⟩ := List.cons.inj (List.cons.inj (same'.symm.trans same)).2
      exact ⟨d, t, rfl, mt closes.2 inside⟩
  · rintro ⟨d, t, rfl, inside⟩
    obtain ⟨e, u, same, closes⟩ := behind d t
    exact ⟨e, u, same, mt closes.1 inside⟩

theorem readItem_agree (total other : Nat) {c d : Char} {t u : Text} (begun : Begins c t d u) :
    Agree Eq (readItem total c t) (readItem other d u) := by
  have first := readAtom_agree (total - t.length - 1) (other - u.length - 1) begun
  generalize one : readAtom (total - t.length - 1) c t = x, two : readAtom (other - u.length - 1) d u = y at first
  cases first with
  | error f g =>
    rw [readItem_of_refused one, readItem_of_refused two]
    exact .error f g
  | @ok a b rest found =>
    subst found
    by_cases dashed : Dashed rest
    · obtain ⟨e, rest, rfl, inside⟩ := dashed
      obtain ⟨e', u', starts, begun⟩ := begins e rest
      have inside' : e' ≠ ']' := by cases begun <;> simp_all
      rw [unescape_plain (by decide), starts] at two
      rw [readItem_of_dashed one inside, readItem_of_dashed two inside']
      have second := readAtom_agree (total - rest.length - 1) (other - u'.length - 1) begun
      generalize readAtom (total - rest.length - 1) e rest = three, readAtom (other - u'.length - 1) e' u' = four
        at second ⊢
      cases second with
      | error f g => exact .error f g
      | @ok b b' rest found =>
        subst found
        simp only
        obtain ⟨item, made, made'⟩ | ⟨f, g, refused, refused'⟩ :=
          dashItem_agree (total - t.length - 1) (other - u.length - 1) a b
        · rw [made, made']
          exact .ok _ rfl
        · rw [refused, refused']
          exact .error f g
    · rw [readItem_of_undashed one dashed, readItem_of_undashed two (mt dashed_unescape.1 dashed)]
      exact .ok rest rfl

theorem readItems_agree (total other : Nat) (t : Text) :
    Agree Eq (readItems total t) (readItems other (unescapeSlashes t)) := by
  induction size : t.length using Nat.strongRecOn generalizing t with
  | ind n ih =>
    cases t with
    | nil => rw [unescapeSlashes, readItems, readItems]; exact .error _ _
    | cons c t =>
      by_cases bracket : c = ']'
      · subst bracket
        rw [unescape_plain (by decide), readItems, readItems]
        exact .ok t rfl
      · obtain ⟨d, u, starts, begun⟩ := begins c t
        have bracket' : d ≠ ']' := by cases begun <;> simp_all
        rw [starts, readItems_cons bracket, readItems_cons bracket']
        have shorter {item : ClassItem} {rest : Text} (read : readItem total c t = .ok (item, rest)) :
            rest.length < n := by
          have := (readItem_suffix read).length_le
          simp at size; omega
        have first := readItem_agree total other begun
        generalize readItem total c t = one, readItem other d u = two at first shorter ⊢
        cases first with
        | error f g => exact .error f g
        | ok rest found =>
          subst found
          simp only
          have others := ih _ (shorter rfl) rest rfl
          generalize readItems total rest = three, readItems other (unescapeSlashes rest) = four at others ⊢
          cases others with
          | error f g => exact .error f g
          | ok rest found => subst found; exact .ok rest rfl

theorem readClass_listed (total : Nat) {t : Text} (listed : ¬ ∃ rest, t = '^' :: rest) :
    readClass total t =
      match readItems total t with
      | .ok (items, rest) => .ok ((false, items), rest)
      | .error fault => .error fault := by
  unfold readClass
  split
  · exact absurd ⟨_, rfl⟩ listed
  · rfl

theorem readClass_agree (total other : Nat) (t : Text) :
    Agree Eq (readClass total t) (readClass other (unescapeSlashes t)) := by
  by_cases negated : ∃ rest, t = '^' :: rest
  · obtain ⟨rest, rfl⟩ := negated
    rw [unescape_plain (by decide)]
    simp only [readClass]
    have items := readItems_agree total other rest
    generalize readItems total rest = one, readItems other (unescapeSlashes rest) = two at items ⊢
    cases items with
    | error f g => exact .error f g
    | ok rest found => subst found; exact .ok rest rfl
  · have negated' := negated
    rw [← starts_unescape (by decide) (by decide)] at negated'
    rw [readClass_listed total negated, readClass_listed other negated']
    have items := readItems_agree total other t
    generalize readItems total t = one, readItems other (unescapeSlashes t) = two at items ⊢
    cases items with
    | error f g => exact .error f g
    | ok rest found => subst found; exact .ok rest rfl

theorem readQuantifier_agree (s s' : Source) (q : Quantifier) (t : Text) :
    Agree Eq (readQuantifier s q t) (readQuantifier s' q (unescapeSlashes t)) := by
  simp only [readQuantifier, lazyMark_unescape, Prod.map_fst, Prod.map_snd, id_eq, startsQuantifier_unescape]
  split
  · exact .error _ _
  · exact .ok _ rfl

theorem readGroup_named (offset : Nat) {t : Text} (behind : ¬ ∃ rest, t = '=' :: rest)
    (notBehind : ¬ ∃ rest, t = '!' :: rest) :
    readGroup offset ('?' :: '<' :: t) =
      match groupName? t with
      | some (name, rest) => .ok (.opening (.named name), rest)
      | none => .error (.invalidGroupName offset) := by
  unfold readGroup
  split
  case h_6 same => cases same; rfl
  case h_7 unnamed same => cases same; exact absurd rfl (unnamed _)
  all_goals simp_all

theorem readGroup_capture (offset : Nat) {t : Text} (unmarked : ¬ ∃ rest, t = '?' :: rest) :
    readGroup offset t = .ok (.opening .capture, t) := by
  unfold readGroup
  split <;> first | rfl | exact absurd ⟨_, rfl⟩ unmarked

theorem readGroup_unsupported (offset : Nat) {c : Char} (t : Text) (other : c ∉ ":=!<".toList) :
    readGroup offset ('?' :: c :: t) = .error (.unsupportedGroup offset) := by
  unfold readGroup
  split <;> simp_all

/-- Behind the angle bracket stands a name, or what makes it an assertion. -/
theorem readGroup_angle_agree (offset other : Nat) (t : Text) :
    Agree Eq (readGroup offset ('?' :: '<' :: t)) (readGroup other ('?' :: '<' :: unescapeSlashes t)) := by
  by_cases behind : ∃ rest, t = '=' :: rest
  · obtain ⟨t, rfl⟩ := behind
    rw [unescape_plain (by decide)]
    exact .ok t rfl
  · by_cases notBehind : ∃ rest, t = '!' :: rest
    · obtain ⟨t, rfl⟩ := notBehind
      rw [unescape_plain (by decide)]
      exact .ok t rfl
    · have behind' := behind
      have notBehind' := notBehind
      rw [← starts_unescape (by decide) (by decide)] at behind' notBehind'
      rw [readGroup_named offset behind notBehind, readGroup_named other behind' notBehind', groupName?_unescape]
      cases groupName? t with
      | none => exact .error _ _
      | some found => exact .ok found.2 rfl

theorem readGroup_agree (offset other : Nat) (t : Text) :
    Agree Eq (readGroup offset t) (readGroup other (unescapeSlashes t)) := by
  by_cases marked : ∃ rest, t = '?' :: rest
  · obtain ⟨t, rfl⟩ := marked
    rw [unescape_plain (by decide)]
    cases t with
    | nil => exact .error _ _
    | cons c t =>
      obtain ⟨d, u, starts, begun⟩ := begins c t
      rw [starts]
      cases begun with
      | plain plain =>
        by_cases known : c ∈ ":=!<".toList
        · have marks : c = ':' ∨ c = '=' ∨ c = '!' ∨ c = '<' := by simpa using known
          rcases marks with rfl | rfl | rfl | rfl
          · exact .ok t rfl
          · exact .ok t rfl
          · exact .ok t rfl
          · exact readGroup_angle_agree offset other t
        · rw [readGroup_unsupported offset t known, readGroup_unsupported other (unescapeSlashes t) known]
          exact .error _ _
      | _ => exact .error _ _
  · have marked' := marked
    rw [← starts_unescape (by decide) (by decide)] at marked'
    rw [readGroup_capture offset marked, readGroup_capture other marked']
    exact .ok t rfl

/-! ## Tokens -/

/-- The token with a slash that stands for itself, however it was written. -/
def Token.settled : Token → Token
  | .code '/' => .plain '/'
  | token => token

/-- Escaped or not, a slash is the same item. -/
theorem step_settled (b : Builder) (token : Token) : b.step token.settled = b.step token := by
  unfold Token.settled
  split <;> rfl

theorem depthAfter?_settled (depth : Nat) (token : Token) :
    token.settled.depthAfter? depth = token.depthAfter? depth := by
  unfold Token.settled
  split <;> rfl

/-- The tokens are the same, however their slashes were written. -/
def Alike (one two : Token) : Prop := one.settled = two.settled

theorem alike_of_eq (one two : Token) (same : one = two) : Alike one two := congrArg Token.settled same

theorem readEscape_agree {s s' : Source} (captures : s'.captures = s.captures) (offset other : Nat) (c : Char)
    (t : Text) :
    Agree Alike (readEscape s offset (c :: t)) (readEscape s' other (c :: unescapeSlashes t)) := by
  unfold readEscape
  simp only [captures]
  split
  · exact .ok t rfl
  · split
    · exact .ok t rfl
    · split
      · exact .ok t rfl
      · split
        · by_cases named : ∃ rest, t = '<' :: rest
          · obtain ⟨t, rfl⟩ := named
            rw [unescape_plain (by decide)]
            simp only [groupName?_unescape]
            cases groupName? t with
            | none => exact .error _ _
            | some found => exact .ok found.2 rfl
          · have named' := named
            rw [← starts_unescape (by decide) (by decide)] at named'
            split
            · exact absurd ⟨_, rfl⟩ named
            · split
              · next same => exact absurd ⟨_, same⟩ named'
              · exact .error _ _
        · rw [backref?_unescape]
          cases backref? s.captures c t with
          | some found => exact .ok found.2 rfl
          | none =>
            have read := charEscape_agree offset other c t
            simp only [Option.map_none]
            generalize charEscape offset c t = one, charEscape other c (unescapeSlashes t) = two at read ⊢
            cases read with
            | error f g => exact .error f g
            | ok rest found => subst found; exact .ok rest rfl

theorem readToken_agree {s s' : Source} (captures : s'.captures = s.captures) {c d : Char} {t u : Text}
    (begun : Begins c t d u) : Agree Alike (readToken s c t) (readToken s' d u) := by
  cases begun with
  | lone => exact .error _ _
  | @slash t => exact .ok t rfl
  | @escape c t kept => exact readEscape_agree captures _ _ c t
  | plain plain =>
    unfold readToken
    simp only
    split
    · exact absurd rfl plain
    · have cls := readClass_agree s.length s'.length t
      generalize readClass s.length t = one, readClass s'.length (unescapeSlashes t) = two at cls ⊢
      cases cls with
      | error f g => exact .error f g
      | ok rest found => subst found; exact .ok rest rfl
    · exact (readGroup_agree _ _ t).imp alike_of_eq
    · exact .ok t rfl
    · exact .ok t rfl
    · exact (readQuantifier_agree s s' .star t).imp alike_of_eq
    · exact (readQuantifier_agree s s' .plus t).imp alike_of_eq
    · exact (readQuantifier_agree s s' .optional t).imp alike_of_eq
    · rw [braces?_unescape]
      cases braces? t with
      | none => exact .ok t rfl
      | some found => exact (readQuantifier_agree s s' found.1 found.2).imp alike_of_eq
    all_goals exact .ok t rfl

theorem scan_unescape (inClass : Bool) (t : Text) : Captures.scan inClass (unescapeSlashes t) = Captures.scan inClass t := by
  induction size : t.length using Nat.strongRecOn generalizing t inClass with
  | ind n ih =>
    cases t with
    | nil => rfl
    | cons c t =>
      obtain ⟨d, u, starts, begun⟩ := begins c t
      have inner (inClass : Bool) : Captures.scan inClass (unescapeSlashes t) = Captures.scan inClass t :=
        ih t.length (by simp at size; omega) inClass t rfl
      rw [starts]
      cases begun with
      | lone => rfl
      | @slash t =>
        exact (Captures.scan_plain (by decide) (by simp) _).trans (ih t.length (by simp at size; omega) inClass t rfl)
      | @escape c t kept =>
        exact ih t.length (by simp at size; omega) inClass t rfl
      | plain plain =>
        by_cases opens : c = '(' ∧ inClass = false
        · obtain ⟨rfl, rfl⟩ := opens
          rw [Captures.scan_group, Captures.scan_group]
          by_cases marked : ∃ rest, t = '?' :: rest
          · obtain ⟨t, rfl⟩ := marked
            by_cases angle : ∃ rest, t = '<' :: rest
            · obtain ⟨t, rfl⟩ := angle
              cases t with
              | nil => rfl
              | cons next t =>
                obtain ⟨d, u, starts, begun⟩ := begins next t
                have ends : next = '=' ∨ next = '!' ↔ d = '=' ∨ d = '!' := by cases begun <;> simp
                have here := inner false
                rw [unescape_plain (by decide), unescape_plain (by decide), starts] at here ⊢
                simp only [here, ends]
            · have angle' := angle
              rw [← starts_unescape (by decide) (by decide)] at angle'
              have here := inner false
              rw [unescape_plain (by decide)] at here ⊢
              split <;> simp_all
          · have marked' := marked
            rw [← starts_unescape (by decide) (by decide)] at marked'
            rw [← inner false]
            split <;> simp_all
        · rw [Captures.scan_plain plain opens, Captures.scan_plain plain opens, inner]

/-- The tokens of a source without its escaped slashes are those of the source, or both are refused. -/
theorem tokensFrom_unescape {s s' : Source} (captures : s'.captures = s.captures) (depth : Nat) (t : Text) :
    (∃ tokens tokens', tokensFrom s depth t = .ok tokens ∧ tokensFrom s' depth (unescapeSlashes t) = .ok tokens' ∧
      tokens'.map Token.settled = tokens.map Token.settled) ∨
    ∃ f g, tokensFrom s depth t = .error f ∧ tokensFrom s' depth (unescapeSlashes t) = .error g := by
  induction size : t.length using Nat.strongRecOn generalizing t depth with
  | ind n ih =>
    cases t with
    | nil =>
      rw [unescapeSlashes, tokensFrom, tokensFrom]
      split
      · exact .inl ⟨_, _, rfl, rfl, rfl⟩
      · exact .inr ⟨_, _, rfl, rfl⟩
    | cons c t =>
      obtain ⟨d, u, starts, begun⟩ := begins c t
      have shorter {token : Token} {rest : Text} (read : readToken s c t = .ok (token, rest)) : rest.length < n := by
        have := (readToken_suffix read).length_le
        simp at size; omega
      have first := readToken_agree captures begun
      rw [starts, tokensFrom_cons, tokensFrom_cons]
      generalize readToken s c t = one, readToken s' d u = two at first shorter ⊢
      cases first with
      | error f g => exact .inr ⟨f, g, rfl, rfl⟩
      | @ok token token' rest alike =>
        have nesting : token'.depthAfter? depth = token.depthAfter? depth := by
          rw [← depthAfter?_settled, ← alike, depthAfter?_settled]
        simp only [nesting]
        cases token.depthAfter? depth with
        | none => exact .inr ⟨_, _, rfl, rfl⟩
        | some inner =>
          obtain ⟨tokens, tokens', read, read', same⟩ | ⟨f, g, refused, refused'⟩ := ih _ (shorter rfl) inner rest rfl
          · simp only [read, read']
            exact .inl ⟨_, _, rfl, rfl, by simp [same, alike.symm]⟩
          · simp only [refused, refused']
            exact .inr ⟨f, g, rfl, rfl⟩

theorem foldlM_settled {tokens tokens' : List Token} (same : tokens'.map Token.settled = tokens.map Token.settled)
    (b : Builder) : tokens'.foldlM Builder.step b = tokens.foldlM Builder.step b := by
  have settled (tokens : List Token) : (tokens.map Token.settled).foldlM Builder.step b = tokens.foldlM Builder.step b := by
    rw [List.foldlM_map]
    simp only [step_settled]
  rw [← settled, same, settled]

/-- A source without its escaped slashes has the pattern of the source, or neither has one. -/
theorem compile_unescapeSlashes (source : Text) :
    (∃ p, compile source = .ok p ∧ compile (unescapeSlashes source) = .ok p) ∨
      ∃ e f, compile source = .error e ∧ compile (unescapeSlashes source) = .error f := by
  have captures : (Source.of (unescapeSlashes source)).captures = (Source.of source).captures := scan_unescape false source
  obtain ⟨tokens, tokens', read, read', same⟩ | ⟨f, g, refused, refused'⟩ := tokensFrom_unescape captures 0 source
  · have built : Pattern.ofTokens? tokens' = Pattern.ofTokens? tokens := by
      simp only [Pattern.ofTokens?, foldlM_settled same]
    simp only [compile, tokenize, read, read', built]
    cases Pattern.ofTokens? tokens with
    | none => exact .inr ⟨_, _, rfl, rfl⟩
    | some p => exact .inl ⟨p, rfl, rfl⟩
  · simp only [compile, tokenize, refused, refused']
    exact .inr ⟨_, _, rfl, rfl⟩

theorem compile_never : compile Search.neverSource = .ok (.look true .empty) := by
  have opened : readToken (.of Search.neverSource) '(' ['?', '!', ')'] = .ok (.opening .notAhead, [')']) := rfl
  have closing : readToken (.of Search.neverSource) ')' [] = .ok (.closing, []) := rfl
  have back : Token.closing.depthAfter? 1 = some 0 := rfl
  have tokens : tokenize Search.neverSource = .ok [.opening .notAhead, .closing] := by
    show tokensFrom (.of Search.neverSource) 0 ['(', '?', '!', ')'] = _
    rw [tokensFrom_of_read opened rfl, tokensFrom_of_read closing back, tokensFrom]
    rfl
  rw [compile, tokens]
  rfl

theorem finds_never (t : Text) : (Pattern.look true .empty).finds t = false := by
  rw [Bool.eq_false_iff, ne_eq, finds_iff _ rfl]
  rintro ⟨i, j, inside, rfl, nowhere⟩
  exact nowhere ⟨i, inside, rfl⟩

/-- The source of a search without its escaped slashes finds what the search does. -/
theorem compile_source (search : Search) :
    ∃ p, compile (unescapeSlashes search.source) = .ok p ∧ ∀ t, p.finds t = search.finds t := by
  have compiles : ∃ p, compile search.source = .ok p ∧ ∀ t, p.finds t = search.finds t := by
    cases search with
    | compiled source pattern compiles => exact ⟨pattern, compiles, fun _ => rfl⟩
    | never => exact ⟨_, compile_never, finds_never⟩
  obtain ⟨p, compiled, same⟩ := compiles
  obtain ⟨q, here, there⟩ | ⟨e, f, refused, _⟩ := compile_unescapeSlashes search.source
  · obtain rfl : p = q := by simpa [compiled] using here
    exact ⟨p, there, same⟩
  · rw [compiled] at refused
    cases refused

end ProxyRouting.Regex
