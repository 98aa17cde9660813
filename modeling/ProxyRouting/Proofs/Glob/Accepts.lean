import Mathlib.Data.List.Infix
import ProxyRouting.Proofs.Regex.Alternatives
import ProxyRouting.Proofs.Text.Digits

/-!
What a glob means, and that its regular expressions find just that. `accepts` compares a glob with a whole
text; on texts without line ends the anchored form and the searching form, which trades stars for missing
anchors, find something exactly in the texts that the glob accepts (`finds_listToRegex` for lists of globs).
-/
namespace ProxyRouting.Glob
open Regex

/-- The glob stands for the whole text: a star for any run of characters, a question mark for one, every
    other character for itself. -/
def accepts : Text → Text → Bool
  | [], t => t.isEmpty
  | c :: glob, t =>
    if c = '*' then t.tails.any (accepts glob)
    else
      match t with
      | [] => false
      | d :: t => (c = '?' || c = d) && accepts glob t

theorem accepts_nil (t : Text) : accepts [] t ↔ t = [] := by simp [accepts]

theorem accepts_star (glob t : Text) : accepts ('*' :: glob) t ↔ ∃ x y, t = x ++ y ∧ accepts glob y := by
  simp only [accepts, ↓reduceIte, List.any_eq_true, List.mem_tails]
  constructor
  · rintro ⟨y, ⟨x, whole⟩, good⟩
    exact ⟨x, y, whole.symm, good⟩
  · rintro ⟨x, y, rfl, good⟩
    exact ⟨y, ⟨x, rfl⟩, good⟩

theorem accepts_cons {c : Char} (noStar : c ≠ '*') (glob t : Text) :
    accepts (c :: glob) t ↔ ∃ d y, t = d :: y ∧ (c = '?' ∨ c = d) ∧ accepts glob y := by
  cases t with
  | nil => simp [accepts, noStar]
  | cons d t =>
    simp only [accepts, noStar, ↓reduceIte, Bool.and_eq_true, Bool.or_eq_true, decide_eq_true_eq, List.cons.injEq]
    constructor
    · rintro ⟨same, good⟩
      exact ⟨d, t, ⟨rfl, rfl⟩, same, good⟩
    · rintro ⟨d', t', ⟨rfl, rfl⟩, same, good⟩
      exact ⟨same, good⟩

/-- Two globs in a row accept what can be cut into a part for each. -/
theorem accepts_append (one two t : Text) :
    accepts (one ++ two) t ↔ ∃ x y, t = x ++ y ∧ accepts one x ∧ accepts two y := by
  induction one generalizing t with
  | nil =>
    constructor
    · intro good; exact ⟨[], t, rfl, rfl, good⟩
    · rintro ⟨x, y, rfl, empty, good⟩
      rw [(accepts_nil x).1 empty]
      exact good
  | cons c one ih =>
    rw [List.cons_append]
    by_cases star : c = '*'
    · subst star
      simp only [accepts_star, ih]
      constructor
      · rintro ⟨run, _, rfl, x, y, rfl, first, second⟩
        exact ⟨run ++ x, y, by simp, ⟨run, x, rfl, first⟩, second⟩
      · rintro ⟨_, y, rfl, ⟨run, x, rfl, first⟩, second⟩
        exact ⟨run, x ++ y, by simp, x, y, rfl, first, second⟩
    · simp only [accepts_cons star, ih]
      constructor
      · rintro ⟨d, _, rfl, same, x, y, rfl, first, second⟩
        exact ⟨d :: x, y, rfl, ⟨d, x, rfl, same, first⟩, second⟩
      · rintro ⟨_, y, rfl, ⟨d, x, rfl, same, first⟩, second⟩
        exact ⟨d, x ++ y, rfl, same, x, y, rfl, first, second⟩

/-- Stars alone accept everything, no stars at all only nothing. -/
theorem accepts_stars (n : Nat) (t : Text) : accepts (List.replicate n '*') t ↔ 0 < n ∨ t = [] := by
  induction n generalizing t with
  | zero => simp [accepts_nil]
  | succ n ih =>
    rw [List.replicate_succ, accepts_star]
    constructor
    · intro _; exact .inl (Nat.succ_pos n)
    · intro _; exact ⟨t, [], by simp, (ih []).2 (.inr rfl)⟩

theorem takeStars_eq (t : Text) :
    t.takeWhile (· = '*') = List.replicate (t.takeWhile (· = '*')).length '*' :=
  List.eq_replicate_iff.2 ⟨rfl, fun c member => by simpa using List.mem_takeWhile_imp member⟩

theorem head_star_iff (t : Text) : t.head? = some '*' ↔ 0 < (t.takeWhile (· = '*')).length := by
  cases t with
  | nil => simp
  | cons c t => by_cases star : c = '*' <;> simp [star]

/-- A glob is what remains of it between stars; an end has some if the glob has a star there, unless stars
    are all it has. -/
theorem trimStars_eq (glob : Text) : ∃ before behind,
    glob = List.replicate before '*' ++ trimStars glob ++ List.replicate behind '*' ∧
      (glob.head? = some '*' ↔ 0 < before) ∧
      (glob.getLast? = some '*' ↔ 0 < behind ∨ 0 < before ∧ trimStars glob = []) := by
  let rest := glob.dropWhile (· = '*')
  have cut := List.takeWhile_append_dropWhile (p := (· = '*')) (l := glob)
  have cutBack := List.takeWhile_append_dropWhile (p := (· = '*')) (l := rest.reverse)
  refine ⟨(glob.takeWhile (· = '*')).length, (rest.reverse.takeWhile (· = '*')).length, ?_, head_star_iff glob, ?_⟩
  · have back := congrArg List.reverse cutBack
    rw [List.reverse_append, List.reverse_reverse] at back
    rw [← takeStars_eq, ← List.reverse_replicate, ← takeStars_eq, trimStars, List.append_assoc, back, cut]
  · have last : glob.getLast? = rest.getLast?.or (glob.takeWhile (· = '*')).getLast? := by
      conv_lhs => rw [← cut]
      exact List.getLast?_append
    rw [← head_star_iff, List.head?_reverse, last]
    cases remains : rest.getLast? with
    | some c =>
      have kept : trimStars glob = [] → c = '*' := by
        intro trimmed
        have stars := List.dropWhile_eq_nil_iff.1 (List.reverse_eq_nil_iff.1 trimmed) c
          (List.mem_reverse.2 (List.mem_of_getLast? remains))
        simpa using stars
      simp only [Option.some_or, Option.some.injEq]
      tauto
    | none =>
      have empty : rest = [] := List.getLast?_eq_none_iff.1 remains
      have trimmed : trimStars glob = [] := by
        show (List.dropWhile _ rest.reverse).reverse = []
        rw [empty]
        rfl
      rw [Option.none_or, takeStars_eq, List.getLast?_replicate, List.length_replicate]
      simp only [trimmed, and_true, reduceCtorEq, false_or]
      rcases Nat.eq_zero_or_pos (glob.takeWhile (· = '*')).length with no | more
      · simp [no]
      · simp [more, Nat.ne_of_gt more]

/-- The stars at the ends of a glob stand for anything before and behind what the rest accepts. -/
theorem accepts_trimStars (glob t : Text) : accepts glob t ↔
    ∃ x y z, t = x ++ (y ++ z) ∧ (glob.head? = some '*' ∨ x = []) ∧ accepts (trimStars glob) y ∧
      (glob.getLast? = some '*' ∨ z = []) := by
  obtain ⟨before, behind, whole, lead, free⟩ := trimStars_eq glob
  have taken : accepts glob t ↔ accepts (List.replicate before '*' ++ trimStars glob ++ List.replicate behind '*') t := by
    rw [← whole]
  rw [taken, List.append_assoc, accepts_append, lead, free]
  simp only [accepts_append, accepts_stars]
  constructor
  · rintro ⟨x, _, rfl, first, y, z, rfl, middle, last⟩
    exact ⟨x, y, z, rfl, first, middle, last.imp .inl id⟩
  · rintro ⟨x, y, z, rfl, first, middle, (more | ⟨more, empty⟩) | none⟩
    · exact ⟨x, _, rfl, first, y, z, rfl, middle, .inl more⟩
    · refine ⟨x ++ (y ++ z), [], by simp, .inl more, [], [], rfl, ?_, .inr rfl⟩
      rw [empty]
      rfl
    · exact ⟨x, _, rfl, first, y, z, rfl, middle, .inr none⟩

/-- The text has no character that ends a line. -/
def OneLine (t : Text) : Prop := ∀ c ∈ t, CodeSet.lineTerminators.contains c.toNat = false

/-- The pattern of one character of a glob. -/
def charPattern (c : Char) : Pattern :=
  if c = '*' then anyRun else if c = '?' then .oneOf anyChar else .char c

theorem isMeta_of_isSpecial {c : Char} (special : isSpecial c = true) : isMeta c = true := by
  have all : ∀ d ∈ "\\[]^$.|?*+()\x7b\x7d".toList, isMeta d = true := Text.forall_mem_of_all (by decide)
  exact all c (List.contains_iff_mem.1 special)

theorem reads_char (c : Char) : Reads (charBody c) [.atom (charPattern c)] := by
  by_cases star : c = '*'
  · simpa [charBody, charPattern, star] using reads_run
  · by_cases mark : c = '?'
    · simpa [charBody, charPattern, mark] using reads_any
    · cases special : isSpecial c with
      | true => simpa [charBody, charPattern, star, mark, special] using reads_escaped (isMeta_of_isSpecial special)
      | false => simpa [charBody, charPattern, star, mark, special] using reads_plain special

/-- The items of a glob. -/
def pieces (glob : Text) : List Piece := glob.flatMap fun c => [.atom (charPattern c)]

theorem reads_body (glob : Text) : Reads (body glob) (pieces glob) := reads_flatMap reads_char glob

theorem patterns_pieces (glob : Text) : (pieces glob).map Piece.pattern = glob.map charPattern := by
  induction glob with
  | nil => rfl
  | cons c glob ih => simpa [pieces, Piece.atom] using ih

theorem anyChar_eq : anyChar = [⟨'\x00', '\x09'⟩, ⟨'\x0b', '\x0c'⟩, ⟨'\x0e', '\u2027'⟩, ⟨'\u202a', Char.ofNat 0x10FFFF⟩] := by
  decide

theorem anyChar_iff (c : Char) :
    anyChar.any (·.contains c) = true ↔ CodeSet.lineTerminators.contains c.toNat = false := by
  have valid : c.toNat < 0x110000 := c.valid.elim (fun low => low.trans (by decide)) fun high => high.2
  rw [anyChar_eq]
  simp only [List.any_cons, List.any_nil, CharRange.contains, CodeSet.contains, CodeSet.lineTerminators]
  simp [Char.le_def, UInt32.le_iff_toNat_le]
  omega

/-! ## Where globs lead -/

/-- What one character of a glob takes of a text: wildcards take no end of a line. -/
def charTakes (c : Char) (part : Text) : Prop :=
  if c = '*' then OneLine part else if c = '?' then part.length = 1 ∧ OneLine part else part = [c]

/-- The glob takes the whole text, each of its characters a part. -/
def takes : Text → Text → Prop
  | [], t => t = []
  | c :: glob, t => ∃ part rest, t = part ++ rest ∧ charTakes c part ∧ takes glob rest

theorem accepts_of_charTakes {c : Char} {part : Text} (taken : charTakes c part) : accepts [c] part := by
  unfold charTakes at taken
  by_cases star : c = '*'
  · rw [star, accepts_star]
    exact ⟨part, [], (List.append_nil part).symm, rfl⟩
  · rw [if_neg star] at taken
    by_cases mark : c = '?'
    · rw [if_pos mark] at taken
      obtain ⟨d, rfl⟩ := List.length_eq_one_iff.1 taken.1
      exact (accepts_cons star [] [d]).2 ⟨d, [], rfl, .inl mark, rfl⟩
    · rw [if_neg mark] at taken
      exact (accepts_cons star [] part).2 ⟨c, [], taken, .inr rfl, rfl⟩

theorem charTakes_of_accepts {c : Char} {part : Text} (oneLine : OneLine part) (good : accepts [c] part) :
    charTakes c part := by
  unfold charTakes
  by_cases star : c = '*'
  · rw [if_pos star]
    exact oneLine
  · rw [if_neg star]
    obtain ⟨d, rest, rfl, same, empty⟩ := (accepts_cons star [] part).1 good
    obtain rfl := (accepts_nil rest).1 empty
    by_cases mark : c = '?'
    · rw [if_pos mark]
      exact ⟨rfl, oneLine⟩
    · rw [if_neg mark, same.resolve_left mark]

theorem accepts_of_takes {glob t : Text} (taken : takes glob t) : accepts glob t := by
  induction glob generalizing t with
  | nil => exact (accepts_nil t).2 taken
  | cons c glob ih =>
    obtain ⟨part, rest, rfl, first, others⟩ := taken
    exact (accepts_append [c] glob _).2 ⟨part, rest, rfl, accepts_of_charTakes first, ih others⟩

/-- On one line a glob takes what it accepts. -/
theorem takes_iff_accepts (glob : Text) {t : Text} (oneLine : OneLine t) : takes glob t ↔ accepts glob t := by
  refine ⟨accepts_of_takes, fun good => ?_⟩
  induction glob generalizing t with
  | nil => exact (accepts_nil t).1 good
  | cons c glob ih =>
    obtain ⟨part, rest, rfl, first, others⟩ := (accepts_append [c] glob t).1 good
    obtain ⟨here, behind⟩ := List.forall_mem_append.1 oneLine
    exact ⟨part, rest, rfl, charTakes_of_accepts here first, ih behind others⟩

/-- A glob without wildcards takes nothing but itself. -/
theorem takes_plain {glob t : Text} (plain : ∀ c ∈ glob, c ≠ '*' ∧ c ≠ '?') (taken : takes glob t) : t = glob := by
  induction glob generalizing t with
  | nil => exact taken
  | cons c glob ih =>
    obtain ⟨part, rest, rfl, first, others⟩ := taken
    obtain ⟨star, mark⟩ := plain c (by simp)
    have same : part = [c] := by simpa only [charTakes, if_neg star, if_neg mark] using first
    rw [same, ih (fun d member => plain d (List.mem_cons_of_mem c member)) others]
    rfl

/-- Two globs in a row take what can be cut into a part for each. -/
theorem takes_append (one two t : Text) : takes (one ++ two) t ↔ ∃ x y, t = x ++ y ∧ takes one x ∧ takes two y := by
  induction one generalizing t with
  | nil =>
    constructor
    · intro taken
      exact ⟨[], t, rfl, rfl, taken⟩
    · rintro ⟨_, y, rfl, rfl, taken⟩
      exact taken
  | cons c one ih =>
    constructor
    · rintro ⟨part, rest, rfl, first, others⟩
      obtain ⟨x, y, rfl, taken, taken'⟩ := (ih rest).1 others
      exact ⟨part ++ x, y, by simp, ⟨part, x, rfl, first, taken⟩, taken'⟩
    · rintro ⟨_, y, rfl, ⟨part, x, rfl, first, taken⟩, taken'⟩
      exact ⟨part, x ++ y, by simp, first, (ih _).2 ⟨x, y, rfl, taken, taken'⟩⟩

/-- A glob takes itself. -/
theorem takes_self (glob : Text) : takes glob glob := by
  induction glob with
  | nil => rfl
  | cons c glob ih =>
    refine ⟨[c], glob, rfl, ?_, ih⟩
    unfold charTakes
    split_ifs with star mark
    · rw [star]
      exact Text.forall_mem_of_all (by decide)
    · rw [mark]
      exact ⟨rfl, Text.forall_mem_of_all (by decide)⟩
    · rfl

/-- A text that a glob accepts ends as the glob does, unless that is in a wildcard. -/
theorem getLast_of_accepts {glob t : Text} {c : Char} (last : glob.getLast? = some c) (star : c ≠ '*') (mark : c ≠ '?')
    (good : accepts glob t) : t.getLast? = some c := by
  obtain ⟨init, rfl⟩ := List.getLast?_eq_some_iff.1 last
  obtain ⟨x, y, rfl, -, ending⟩ := (accepts_append init [c] t).1 good
  obtain ⟨d, rest, rfl, same, empty⟩ := (accepts_cons star [] y).1 ending
  rw [(accepts_nil rest).1 empty, same.resolve_left mark]
  simp

theorem covers_charPattern (c : Char) : Covers [charPattern c] (charTakes c) := by
  unfold charPattern
  by_cases star : c = '*'
  · rw [if_pos star]
    refine (covers_run anyChar 0 true).congr fun part => ?_
    simp only [anyChar_iff, charTakes, if_pos star, Nat.zero_le, true_and, OneLine]
  · rw [if_neg star]
    by_cases mark : c = '?'
    · rw [if_pos mark]
      refine (covers_oneOf anyChar).congr fun part => ?_
      simp only [anyChar_iff, charTakes, if_neg star, if_pos mark, List.length_eq_one_iff]
      constructor
      · rintro ⟨d, rfl, inside⟩
        exact ⟨⟨d, rfl⟩, List.forall_mem_singleton.2 inside⟩
      · rintro ⟨⟨d, rfl⟩, oneLine⟩
        exact ⟨d, rfl, oneLine d (List.mem_singleton_self d)⟩
    · rw [if_neg mark]
      refine (covers_char c).congr fun part => ?_
      simp only [charTakes, if_neg star, if_neg mark]

/-- The items of a glob lead over just what it takes. -/
theorem covers_pieces (glob : Text) : Covers ((pieces glob).map Piece.pattern) (takes glob) := by
  rw [patterns_pieces]
  induction glob with
  | nil => exact covers_nil
  | cons c glob ih => exact covers_append (covers_charPattern c) ih

/-- The anchor behind a glob, unless anything may follow. -/
def closing (free : Bool) : List Piece := if free then [] else [.assertion .finish]

/-- The anchor before a glob, unless anything may precede. -/
def leading (free : Bool) : List Piece := if free then [] else [.assertion .start]

theorem leadsThrough_closing (free : Bool) {text : Text} {k j : Nat} :
    LeadsThrough text ((closing free).map Piece.pattern) k j ↔ k = j ∧ (free ∨ k = text.length) := by
  cases free <;> simp [closing, LeadsThrough, Piece.assertion, Pattern.Leads]

theorem leadsThrough_leading (free : Bool) {text : Text} {i k : Nat} :
    LeadsThrough text ((leading free).map Piece.pattern) i k ↔ i = k ∧ (free ∨ k = 0) := by
  cases free with
  | true => simp [leading, LeadsThrough]
  | false =>
    simp [leading, LeadsThrough, Piece.assertion, Pattern.Leads]
    omega

/-- Behind `x` a glob finds what it takes; without an anchor anything may follow. -/
theorem leadsThrough_glob (glob : Text) (free : Bool) (x t : Text) :
    (∃ j ≤ (x ++ t).length, LeadsThrough (x ++ t) ((pieces glob ++ closing free).map Piece.pattern) x.length j) ↔
      ∃ y z, t = y ++ z ∧ takes glob y ∧ (free ∨ z = []) := by
  have passed (k : Nat) := covers_pieces glob x t k
  simp only [List.map_append, leadsThrough_append, passed, leadsThrough_closing]
  constructor
  · rintro ⟨j, inside, _, ⟨y, z, rfl, rfl, taken⟩, rfl, atEnd⟩
    exact ⟨y, z, rfl, taken, atEnd.imp id (by simp)⟩
  · rintro ⟨y, z, rfl, taken, atEnd⟩
    exact ⟨(x ++ y).length, by simp, _, ⟨y, z, rfl, rfl, taken⟩, rfl, atEnd.imp id (by simp)⟩

/-- What a source finds in a text as one of several alternatives. -/
def Finds (text : Text) (items : List Piece) : Prop :=
  ∃ i j, j ≤ text.length ∧ LeadsThrough text (items.map Piece.pattern) i j

section
variable {front : List Piece} {ends : Text → Prop} {t : Text}

/-- Items that can end behind a start of the text, and then a glob: together they find what the glob takes behind
    such a start. -/
theorem finds_taken_behind
    (reaches : ∀ x z, t = x ++ z → ((∃ i, LeadsThrough t (front.map Piece.pattern) i x.length) ↔ ends x))
    (glob : Text) (free : Bool) : Finds t (front ++ (pieces glob ++ closing free)) ↔
      ∃ x y z, t = x ++ (y ++ z) ∧ ends x ∧ takes glob y ∧ (free ∨ z = []) := by
  simp only [Finds]
  constructor
  · rintro ⟨i, j, inside, way⟩
    rw [List.map_append, leadsThrough_append] at way
    obtain ⟨k, before, behind⟩ := way
    have reached : (t.take k).length = k := List.length_take_of_le ((leadsThrough_le behind).trans inside)
    have cut := List.take_append_drop k t
    have start := (reaches _ _ cut.symm).1 ⟨i, by rwa [reached]⟩
    rw [← cut] at inside
    obtain ⟨y, z, rest, taken, atEnd⟩ := (leadsThrough_glob glob free _ _).1 ⟨j, inside, by rwa [cut, reached]⟩
    exact ⟨t.take k, y, z, by rw [← rest, cut], start, taken, atEnd⟩
  · rintro ⟨x, y, z, rfl, start, taken, atEnd⟩
    obtain ⟨i, before⟩ := (reaches x (y ++ z) rfl).2 start
    obtain ⟨j, inside, behind⟩ := (leadsThrough_glob glob free x _).2 ⟨y, z, rfl, taken, atEnd⟩
    refine ⟨i, j, inside, ?_⟩
    rw [List.map_append, leadsThrough_append]
    exact ⟨x.length, before, behind⟩

/-- On one line they find what the glob accepts. -/
theorem finds_glob_behind
    (reaches : ∀ x z, t = x ++ z → ((∃ i, LeadsThrough t (front.map Piece.pattern) i x.length) ↔ ends x))
    (glob : Text) (free : Bool) (oneLine : OneLine t) : Finds t (front ++ (pieces glob ++ closing free)) ↔
      ∃ x y z, t = x ++ (y ++ z) ∧ ends x ∧ accepts glob y ∧ (free ∨ z = []) := by
  rw [finds_taken_behind reaches]
  constructor
  · rintro ⟨x, y, z, whole, start, taken, atEnd⟩
    exact ⟨x, y, z, whole, start, accepts_of_takes taken, atEnd⟩
  · rintro ⟨x, y, z, rfl, start, good, atEnd⟩
    have part := (List.forall_mem_append.1 (List.forall_mem_append.1 oneLine).2).1
    exact ⟨x, y, z, rfl, start, (takes_iff_accepts glob part).2 good, atEnd⟩

/-- A text in which something is found up to its end ends as the last glob does, unless that is in a wildcard. -/
theorem getLast_of_finds {glob : Text} {c : Char} (last : glob.getLast? = some c) (star : c ≠ '*') (mark : c ≠ '?')
    (found : Finds t (front ++ (pieces glob ++ closing false))) : t.getLast? = some c := by
  let reached (x : Text) : Prop := ∃ i, LeadsThrough t (front.map Piece.pattern) i x.length
  obtain ⟨x, y, z, whole, -, taken, atEnd⟩ :=
    (finds_taken_behind (fun x _ _ => (Iff.rfl : reached x ↔ reached x)) glob false).1 found
  obtain rfl : z = [] := atEnd.resolve_left (by simp)
  have ending := getLast_of_accepts last star mark (accepts_of_takes taken)
  rw [whole, List.append_nil, List.getLast?_append, ending, Option.some_or]

theorem leading_reaches (lead : Bool) (x z : Text) (_whole : t = x ++ z) :
    (∃ i, LeadsThrough t ((leading lead).map Piece.pattern) i x.length) ↔ (lead ∨ x = []) := by
  simp [leadsThrough_leading]

theorem finds_between (lead free : Bool) (glob : Text) (oneLine : OneLine t) :
    Finds t (leading lead ++ (pieces glob ++ closing free)) ↔
      ∃ x y z, t = x ++ (y ++ z) ∧ (lead ∨ x = []) ∧ accepts glob y ∧ (free ∨ z = []) :=
  finds_glob_behind (leading_reaches lead) glob free oneLine

end

/-! ## Regular expressions of globs -/

/-- The end of a glob may be left open: stars are there to be traded. -/
def isOpen (trim : Bool) (end? : Option Char) : Bool := trim && end? = some '*'

/-- The items of a glob in either form. -/
def formPieces (trim : Bool) (glob : Text) : List Piece :=
  leading (isOpen trim glob.head?) ++
    (pieces (if trim then trimStars glob else glob) ++ closing (isOpen trim glob.getLast?))

theorem reads_leading (lead : Bool) : Reads (if lead then [] else ['^']) (leading lead) := by
  cases lead with
  | false => exact reads_start
  | true => exact reads_nil

theorem reads_closing (free : Bool) : Reads (if free then [] else ['$']) (closing free) := by
  cases free with
  | false => exact reads_finish
  | true => exact reads_nil

theorem reads_toRegex (trim : Bool) (glob : Text) : Reads (toRegex trim glob) (formPieces trim glob) := by
  have whole := reads_append (reads_leading (isOpen trim glob.head?))
    (reads_append (reads_body (if trim then trimStars glob else glob)) (reads_closing (isOpen trim glob.getLast?)))
  cases trim with
  | false => simpa [toRegex, anchored, isOpen, formPieces] using whole
  | true => simpa [toRegex, searching, isOpen, formPieces] using whole

/-- In either form a glob finds something in exactly the texts that it accepts. -/
theorem finds_formPieces (trim : Bool) (glob : Text) {t : Text} (oneLine : OneLine t) :
    Finds t (formPieces trim glob) ↔ accepts glob t := by
  rw [formPieces, finds_between _ _ _ oneLine]
  cases trim with
  | false => simp [isOpen]
  | true =>
    rw [accepts_trimStars glob t]
    simp [isOpen]

/-- Whatever stands before it, a glob that begins with a star finds itself at the end of a text; every glob does in
    itself. -/
theorem finds_formPieces_self (x glob : Text) (lead : x = [] ∨ glob.head? = some '*') :
    Finds (x ++ glob) (formPieces true glob) := by
  obtain ⟨before, behind, whole, starred, ended⟩ := trimStars_eq glob
  refine (finds_taken_behind (leading_reaches _) (trimStars glob) _).2
    ⟨x ++ List.replicate before '*', trimStars glob, List.replicate behind '*', ?_, ?_, takes_self _, ?_⟩
  · conv_lhs => rw [whole]
    simp
  · rcases Nat.eq_zero_or_pos before with none | some
    · refine lead.symm.imp (fun head => ?_) fun empty => ?_
      · simp [isOpen, head]
      · simp [empty, none]
    · exact .inl (by simp [isOpen, starred.2 some])
  · rcases Nat.eq_zero_or_pos behind with none | some
    · exact .inr (by simp [none])
    · exact .inl (by simp [isOpen, ended.2 (.inl some)])

/-- The items of a glob end as the glob does. -/
theorem formPieces_ends {glob : Text} {c : Char} (last : glob.getLast? = some c) (star : c ≠ '*') :
    ∃ front rest, formPieces true glob = front ++ (pieces rest ++ closing false) ∧ rest.getLast? = some c := by
  refine ⟨leading (isOpen true glob.head?), trimStars glob, by simp [formPieces, isOpen, last, star], ?_⟩
  obtain ⟨before, behind, whole, -, ended⟩ := trimStars_eq glob
  have shut : behind = 0 ∧ (0 < before → trimStars glob ≠ []) := by
    rw [last, Option.some.injEq, iff_false_left star, not_or, not_and] at ended
    exact ⟨Nat.eq_zero_of_not_pos ended.1, ended.2⟩
  rw [shut.1, List.replicate_zero, List.append_nil] at whole
  have ends := congrArg List.getLast? whole
  rw [last, List.getLast?_append] at ends
  cases kept : (trimStars glob).getLast? with
  | some d => rw [ends, kept, Option.some_or]
  | none =>
    have empty := List.getLast?_eq_none_iff.1 kept
    have none : before = 0 := Nat.eq_zero_of_not_pos fun some => shut.2 some empty
    rw [kept, none] at ends
    cases ends

/-- The alternatives of some globs, all in one form. -/
def alternativesOf (trim : Bool) (globs : List Text) : List Alternative :=
  globs.map fun glob => ⟨toRegex trim glob, formPieces trim glob, reads_toRegex trim glob⟩

theorem listToRegex_eq (trim : Bool) (list : Text) :
    listToRegex trim list = sourceOf (alternativesOf trim (segments list)) := by
  simp [listToRegex, sourceOf, alternativesOf, Function.comp_def]

/-- A list with at least one glob compiles in either form, and what is compiled finds something in a text without
    line ends just when one of the globs accepts the whole text: the form makes no difference. -/
theorem finds_listToRegex (trim : Bool) (list : Text) (some : segments list ≠ []) :
    ∃ p, compile (listToRegex trim list) = .ok p ∧
      ∀ t, OneLine t → (p.finds t ↔ ∃ glob ∈ segments list, accepts glob t) := by
  have some' : alternativesOf trim (segments list) ≠ [] := by simpa [alternativesOf] using some
  have compiled := compile_alternatives some'
  rw [← listToRegex_eq] at compiled
  refine ⟨_, compiled, fun t oneLine => ?_⟩
  rw [← finds_ofSource compiled, listToRegex_eq, finds_alternatives some']
  constructor
  · rintro ⟨_, member, found⟩
    obtain ⟨glob, listed, rfl⟩ := List.mem_map.1 member
    exact ⟨glob, listed, (finds_formPieces trim glob oneLine).1 found⟩
  · rintro ⟨glob, listed, good⟩
    exact ⟨_, List.mem_map_of_mem listed, (finds_formPieces trim glob oneLine).2 good⟩

theorem finds_listToRegex_starred : segments "http://*.b.org/*||c*".toList ≠ [] ∧
    ∃ p, compile (listToRegex true "http://*.b.org/*||c*".toList) = .ok p ∧
      OneLine "http://a.b.org/x".toList ∧ p.finds "http://a.b.org/x".toList = true ∧
      OneLine "http://b.org/c".toList ∧ p.finds "http://b.org/c".toList = false := by
  have two : segments "http://*.b.org/*||c*".toList = ["http://*.b.org/*".toList, "c*".toList] := by decide
  have some : segments "http://*.b.org/*||c*".toList ≠ [] := by decide
  have oneLine : OneLine "http://a.b.org/x".toList := Text.forall_mem_of_all (by decide)
  have oneLine' : OneLine "http://b.org/c".toList := Text.forall_mem_of_all (by decide)
  obtain ⟨p, compiled, found⟩ := finds_listToRegex true "http://*.b.org/*||c*".toList some
  refine ⟨some, p, compiled, oneLine, (found _ oneLine).2 ?_, oneLine', ?_⟩
  · rw [two]
    exact ⟨"http://*.b.org/*".toList, by simp, by decide⟩
  · rw [← Bool.not_eq_true, found _ oneLine', two]
    decide

end ProxyRouting.Glob
