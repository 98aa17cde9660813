import Mathlib.Data.List.Basic
import Mathlib.Data.List.TakeWhile
import ProxyRouting.Glob
import ProxyRouting.Proofs.Regex.Leads
import ProxyRouting.Regex.Search

/-!
Sources put together from pieces whose reading is known. `Reads` says that a source stands for certain
items wherever it is written, so that sources can be joined and their items with them; from the items of
its alternatives follows what a whole source finds (`finds_alternatives`).
-/
namespace ProxyRouting.Regex

theorem tokensFrom_cons (s : Source) (depth : Nat) (c : Char) (t : Text) :
    tokensFrom s depth (c :: t) =
      match readToken s c t with
      | .error fault => .error fault
      | .ok (token, rest) =>
        match token.depthAfter? depth with
        | none => .error .unbalancedGroup
        | some depth =>
          match tokensFrom s depth rest with
          | .error fault => .error fault
          | .ok tokens => .ok (token :: tokens) := by
  rw [tokensFrom]
  split
  · next refused => rw [refused]
  · next read =>
    rewrite [read]
    rfl

/-- A dash and a sign come first, behind which a class goes on. -/
def Dashed (t : Text) : Prop := ∃ d rest, t = '-' :: d :: rest ∧ d ≠ ']'

section
variable {total : Nat} {c : Char} {t rest : Text} {a : Atom}

theorem readItem_of_refused {fault : Fault} (refused : readAtom (total - t.length - 1) c t = .error fault) :
    readItem total c t = .error fault := by
  simp only [readItem, refused]

/-- An atom is an item by itself where no range goes on behind it. -/
theorem readItem_of_undashed (read : readAtom (total - t.length - 1) c t = .ok (a, rest)) (undashed : ¬ Dashed rest) :
    readItem total c t = .ok (.one a, rest) := by
  simp only [readItem, read]
  split
  · cases ‹_›
  · next b d behind same =>
    obtain ⟨rfl, rfl⟩ := Prod.mk.inj (Except.ok.inj same)
    by_cases closes : d = ']'
    · rw [if_pos closes]
    · exact absurd ⟨d, behind, rfl, closes⟩ undashed
  · next same =>
    obtain ⟨rfl, rfl⟩ := Prod.mk.inj (Except.ok.inj same)
    rfl

theorem readItem_of_dashed {d : Char} (read : readAtom (total - t.length - 1) c t = .ok (a, '-' :: d :: rest))
    (inside : d ≠ ']') :
    readItem total c t =
      match readAtom (total - rest.length - 1) d rest with
      | .error fault => .error fault
      | .ok (b, rest) =>
        match dashItem (total - t.length - 1) a b with
        | .error fault => .error fault
        | .ok item => .ok (item, rest) := by
  cases second : readAtom (total - rest.length - 1) d rest with
  | error fault => simp only [readItem, read, if_neg inside, second]
  | ok found =>
    cases made : dashItem (total - t.length - 1) a found.1 <;> simp only [readItem, read, if_neg inside, second, made]

end

theorem readItems_cons {total : Nat} {c : Char} (inside : c ≠ ']') (t : Text) :
    readItems total (c :: t) =
      match readItem total c t with
      | .error fault => .error fault
      | .ok (item, rest) =>
        match readItems total rest with
        | .error fault => .error fault
        | .ok (items, rest) => .ok (item :: items, rest) := by
  rw [readItems, if_neg inside]
  split
  · next refused => rw [refused]
  · next read =>
    rewrite [read]
    rfl

theorem tokensFrom_of_read {s : Source} {depth inner : Nat} {c : Char} {t rest : Text} {token : Token}
    (read : readToken s c t = .ok (token, rest)) (nested : token.depthAfter? depth = some inner) :
    tokensFrom s depth (c :: t) = (tokensFrom s inner rest).map (token :: ·) := by
  rw [tokensFrom_cons, read]
  simp only [nested]
  cases tokensFrom s inner rest <;> rfl

/-- What holds of no tokens, and of every token put in front of others of which it holds, holds of all that is read. -/
@[elab_as_elim]
theorem tokensFrom_induction {s : Source} {motive : Nat → Text → List Token → Prop} (done : motive 0 [] [])
    (next : ∀ {depth inner : Nat} {c : Char} {t rest : Text} {token : Token} {others : List Token},
      readToken s c t = .ok (token, rest) → token.depthAfter? depth = some inner → motive inner rest others →
        motive depth (c :: t) (token :: others))
    {depth : Nat} {t : Text} {tokens : List Token} (read : tokensFrom s depth t = .ok tokens) :
    motive depth t tokens := by
  induction size : t.length using Nat.strongRecOn generalizing t depth tokens with
  | ind n ih =>
    cases t with
    | nil =>
      rw [tokensFrom] at read
      split at read
      · next ground =>
        cases read
        exact ground ▸ done
      · cases read
    | cons c t =>
      rw [tokensFrom_cons] at read
      split at read
      · cases read
      · next token rest first =>
        have shorter := (readToken_suffix first).length_le
        split at read
        · cases read
        · next inner nested =>
          split at read
          · cases read
          · next others later =>
            cases read
            exact next first nested (ih _ (by simp at size; omega) later rfl)

/-- No quantifier begins here, whatever follows. -/
def Calm (t : Text) : Prop := ∀ c ∈ t.head?, c ≠ '*' ∧ c ≠ '+' ∧ c ≠ '?' ∧ c ≠ '\x7b'

theorem calm_append {s t : Text} (first : Calm s) (second : Calm t) : Calm (s ++ t) := by
  cases s with
  | nil => exact second
  | cons c s => exact first

theorem calm_cons_append {c : Char} {t : Text} (calm : Calm [c]) : Calm (c :: t) := calm

theorem startsQuantifier_calm {t : Text} (calm : Calm t) : startsQuantifier t = false := by
  cases t with
  | nil => rfl
  | cons c t =>
    obtain ⟨star, plus, mark, brace⟩ := calm c rfl
    unfold startsQuantifier
    split <;> simp_all

theorem lazyMark_calm {t : Text} (calm : Calm t) : lazyMark t = (false, t) := by
  cases t with
  | nil => rfl
  | cons c t =>
    obtain ⟨_, _, mark, _⟩ := calm c rfl
    unfold lazyMark
    split <;> simp_all

/-- The source is read as the tokens wherever it stands, unless a quantifier follows. -/
structure Spells (source : Text) (tokens : List Token) : Prop where
  calm : Calm source
  reads : ∀ s depth rest, Calm rest →
    tokensFrom s depth (source ++ rest) = (tokensFrom s depth rest).map (tokens ++ ·)

theorem spells_nil : Spells [] [] :=
  ⟨by simp [Calm], fun s depth rest _ => by cases h : tokensFrom s depth rest <;> simp [h, Except.map]⟩

theorem spells_append {one two : Text} {first second : List Token} (a : Spells one first) (b : Spells two second) :
    Spells (one ++ two) (first ++ second) := by
  refine ⟨calm_append a.calm b.calm, fun s depth rest calm => ?_⟩
  rw [List.append_assoc, a.reads s depth _ (calm_append b.calm calm), b.reads s depth rest calm]
  cases tokensFrom s depth rest <;> simp [Except.map]

/-- A character that is read on its own as a token that neither opens nor closes anything. -/
theorem spells_of_read {c : Char} {token : Token} (calm : Calm [c])
    (read : ∀ s t, readToken s c t = .ok (token, t)) (level : ∀ depth, token.depthAfter? depth = some depth) :
    Spells [c] [token] := by
  refine ⟨calm, fun s depth rest _ => ?_⟩
  rw [List.singleton_append, tokensFrom_of_read (read s rest) (level depth)]
  simp

theorem spells_start : Spells ['^'] [.start] :=
  spells_of_read (by simp [Calm]) (fun _ _ => rfl) fun _ => rfl

theorem spells_finish : Spells ['$'] [.finish] :=
  spells_of_read (by simp [Calm]) (fun _ _ => rfl) fun _ => rfl

theorem spells_bar : Spells ['|'] [.bar] :=
  spells_of_read (by simp [Calm]) (fun _ _ => rfl) fun _ => rfl

theorem spells_any : Spells ['.'] [.oneOf anyChar] :=
  spells_of_read (by simp [Calm]) (fun _ _ => rfl) fun _ => rfl

theorem readToken_plain {c : Char} (plain : Glob.isSpecial c = false) (s : Source) (t : Text) :
    readToken s c t = .ok (.plain c, t) := by
  unfold readToken
  simp only
  split <;> first | rfl | exact absurd plain (by decide)

theorem spells_plain {c : Char} (plain : Glob.isSpecial c = false) : Spells [c] [.plain c] := by
  refine spells_of_read ?_ (readToken_plain plain) fun _ => rfl
  rintro d ⟨⟩
  refine ⟨?_, ?_, ?_, ?_⟩ <;> rintro rfl <;> exact absurd plain (by decide)

theorem readToken_escaped {c : Char} (special : isMeta c = true) (s : Source) (t : Text) :
    readToken s '\\' (c :: t) = .ok (.code c, t) := by
  simp only [isMeta, List.contains_iff_mem] at special
  simp at special
  rcases special with rfl | rfl | rfl | rfl | rfl | rfl | rfl | rfl | rfl | rfl | rfl | rfl | rfl | rfl | rfl | rfl |
    rfl | rfl <;> rfl

theorem spells_escaped {c : Char} (special : isMeta c = true) : Spells ['\\', c] [.code c] := by
  refine ⟨by simp [Calm], fun s depth rest _ => ?_⟩
  exact tokensFrom_of_read (readToken_escaped special s rest) rfl

theorem readQuantifier_calm (s : Source) (q : Quantifier) {t : Text} (calm : Calm t) :
    readQuantifier s q t = .ok (.quantifier q false, t) := by
  simp [readQuantifier, lazyMark_calm calm, startsQuantifier_calm calm]

theorem spells_run : Spells ['.', '*'] [.oneOf anyChar, .quantifier .star false] := by
  refine ⟨by simp [Calm], fun s depth rest calm => ?_⟩
  have star : readToken s '*' rest = .ok (.quantifier .star false, rest) := readQuantifier_calm s .star calm
  have any : readToken s '.' ('*' :: rest) = .ok (.oneOf anyChar, '*' :: rest) := rfl
  show tokensFrom s depth ('.' :: '*' :: rest) = _
  rw [tokensFrom_of_read any rfl, tokensFrom_of_read star rfl]
  cases tokensFrom s depth rest <;> rfl

/-- Any character but `c`. -/
def allBut (c : Char) : List CharRange := CodeSet.scalars (classCodes true [.one (.char c)])

theorem readClass_allBut {c : Char} (plain : Glob.isSpecial c = false) (total : Nat) (t : Text) :
    readClass total ('^' :: c :: ']' :: t) = .ok ((true, [.one (.char c)]), t) := by
  have other {d : Char} (special : Glob.isSpecial d = true) : c ≠ d := by
    rintro rfl
    rw [plain] at special
    cases special
  have item : readItem total c (']' :: t) = .ok (.one (.char c), ']' :: t) := by
    simp [readItem, readAtom, other (d := '\\') (by decide)]
  have last : readItems total (']' :: t) = .ok ([], t) := by rw [readItems, if_pos rfl]
  simp only [readClass, readItems_cons (other (d := ']') (by decide)), item, last]

/-- A run of at least one of the characters that are not `c`. -/
theorem spells_runBut {c : Char} (plain : Glob.isSpecial c = false) :
    Spells ['[', '^', c, ']', '+'] [.oneOf (allBut c), .quantifier .plus false] := by
  refine ⟨by simp [Calm], fun s depth rest calm => ?_⟩
  have plus : readToken s '+' rest = .ok (.quantifier .plus false, rest) := readQuantifier_calm s .plus calm
  have list : readToken s '[' ('^' :: c :: ']' :: '+' :: rest) = .ok (.oneOf (allBut c), '+' :: rest) := by
    simp only [readToken, readClass_allBut plain, allBut]
  show tokensFrom s depth ('[' :: '^' :: c :: ']' :: '+' :: rest) = _
  rw [tokensFrom_of_read list rfl, tokensFrom_of_read plus rfl]
  cases tokensFrom s depth rest <;> rfl

theorem spells_labelStart :
    Spells "(?:^|\\.)".toList [.opening .plain, .start, .bar, .code '.', .closing] := by
  refine ⟨by simp [Calm], fun s depth rest calm => ?_⟩
  show tokensFrom s depth ('(' :: '?' :: ':' :: '^' :: '|' :: '\\' :: '.' :: ')' :: rest) = _
  have opened (t : Text) : readToken s '(' ('?' :: ':' :: t) = .ok (.opening .plain, t) := rfl
  have start (t : Text) : readToken s '^' t = .ok (.start, t) := rfl
  have bar (t : Text) : readToken s '|' t = .ok (.bar, t) := rfl
  have dot (t : Text) : readToken s '\\' ('.' :: t) = .ok (.code '.', t) := rfl
  have closing (t : Text) : readToken s ')' t = .ok (.closing, t) := rfl
  have back : Token.closing.depthAfter? (depth + 1) = some depth := rfl
  rw [tokensFrom_of_read (opened _) rfl, tokensFrom_of_read (start _) rfl, tokensFrom_of_read (bar _) rfl,
    tokensFrom_of_read (dot _) rfl, tokensFrom_of_read (closing _) back]
  cases tokensFrom s depth rest <;> rfl

/-! ## Items -/

/-- The tokens add the items to a group that is not inside another. -/
def Adds (tokens : List Token) (pieces : List Piece) : Prop :=
  ∀ b : Builder, b.outer = [] → tokens.foldlM Builder.step b = some (pieces.foldl Builder.push b)

theorem outer_pushed (pieces : List Piece) (b : Builder) : (pieces.foldl Builder.push b).outer = b.outer := by
  induction pieces generalizing b with
  | nil => rfl
  | cons p pieces ih => exact ih (b.push p)

theorem adds_nil : Adds [] [] := fun _ _ => rfl

theorem adds_append {one two : List Token} {first second : List Piece} (a : Adds one first) (b : Adds two second) :
    Adds (one ++ two) (first ++ second) := by
  intro builder ground
  rw [List.foldlM_append, a builder ground, List.foldl_append]
  exact b _ ((outer_pushed first builder).trans ground)

theorem adds_of_step {token : Token} {p : Piece} (step : ∀ b : Builder, b.step token = some (b.push p)) :
    Adds [token] [p] := by
  intro b _
  simp [step b]

/-- Any run of characters that do not end a line. -/
def anyRun : Pattern := .loop (.oneOf anyChar) 0 none true

theorem adds_run : Adds [.oneOf anyChar, .quantifier .star false] [.atom anyRun] := fun _ _ => rfl

theorem adds_runBut (c : Char) : Adds [.oneOf (allBut c), .quantifier .plus false]
    [.atom (.loop (.oneOf (allBut c)) 1 none true)] := fun _ _ => rfl

/-- The start of the text, or a dot. -/
def labelStart : Pattern := .alt .start (.char '.')

theorem adds_labelStart :
    Adds [.opening .plain, .start, .bar, .code '.', .closing] [⟨labelStart, .atom, [.start, .char '.']⟩] := by
  intro b ground
  obtain ⟨frame, outer, groups, names, used, numbered⟩ := b
  cases ground
  rfl

/-- The source stands for the items wherever it is written, and the items are no mere groupings and refer to
    nothing before them. -/
structure Reads (source : Text) (pieces : List Piece) : Prop where
  solid : ∀ p ∈ pieces, p.shape ≠ .nothing
  plain : ∀ p ∈ pieces, p.pattern.refersBack = false
  reading : ∃ tokens, Spells source tokens ∧ Adds tokens pieces

theorem reads_nil : Reads [] [] := ⟨by simp, by simp, [], spells_nil, adds_nil⟩

theorem reads_append {one two : Text} {first second : List Piece} (a : Reads one first) (b : Reads two second) :
    Reads (one ++ two) (first ++ second) := by
  obtain ⟨tokens, spelled, added⟩ := a.reading
  obtain ⟨tokens', spelled', added'⟩ := b.reading
  refine ⟨?_, ?_, tokens ++ tokens', spells_append spelled spelled', adds_append added added'⟩
  · intro p member
    exact (List.mem_append.1 member).elim (a.solid p) (b.solid p)
  · intro p member
    exact (List.mem_append.1 member).elim (a.plain p) (b.plain p)

theorem reads_flatMap {α : Type} {source : α → Text} {pieces : α → List Piece}
    (each : ∀ a, Reads (source a) (pieces a)) (as : List α) : Reads (as.flatMap source) (as.flatMap pieces) := by
  induction as with
  | nil => exact reads_nil
  | cons a as ih => exact reads_append (each a) ih

theorem reads_one {source : Text} {tokens : List Token} {p : Piece} (solid : p.shape ≠ .nothing)
    (plain : p.pattern.refersBack = false) (spelled : Spells source tokens) (added : Adds tokens [p]) :
    Reads source [p] :=
  ⟨by simpa using solid, by simpa using plain, tokens, spelled, added⟩

theorem reads_start : Reads ['^'] [.assertion .start] :=
  reads_one (by decide) rfl spells_start (adds_of_step fun _ => rfl)

theorem reads_finish : Reads ['$'] [.assertion .finish] :=
  reads_one (by decide) rfl spells_finish (adds_of_step fun _ => rfl)

theorem reads_any : Reads ['.'] [.atom (.oneOf anyChar)] :=
  reads_one (by decide) rfl spells_any (adds_of_step fun _ => rfl)

theorem reads_run : Reads ['.', '*'] [.atom anyRun] := reads_one (by decide) rfl spells_run adds_run

theorem reads_runBut {c : Char} (plain : Glob.isSpecial c = false) :
    Reads ['[', '^', c, ']', '+'] [.atom (.loop (.oneOf (allBut c)) 1 none true)] :=
  reads_one (by simp [Piece.atom]) rfl (spells_runBut plain) (adds_runBut c)

theorem reads_labelStart : Reads "(?:^|\\.)".toList [⟨labelStart, .atom, [.start, .char '.']⟩] :=
  reads_one (by decide) rfl spells_labelStart adds_labelStart

theorem reads_plain {c : Char} (plain : Glob.isSpecial c = false) : Reads [c] [.atom (.char c)] :=
  reads_one (by simp [Piece.atom]) rfl (spells_plain plain) (adds_of_step fun _ => rfl)

theorem reads_escaped {c : Char} (special : isMeta c = true) : Reads ['\\', c] [.atom (.char c)] :=
  reads_one (by simp [Piece.atom]) rfl (spells_escaped special) (adds_of_step fun _ => rfl)

/-- One or more digits. -/
def IsCount (n : Text) : Prop := n ≠ [] ∧ ∀ c ∈ n, c.isDigit = true

/-- Counts are written in digits. -/
def Quantifier.Sound : Quantifier → Prop
  | .exactly n => IsCount n
  | .atLeast n => IsCount n
  | .between n m => IsCount n ∧ IsCount m
  | _ => True

/-- What quantifiers are spelled with, besides digits. -/
def quantifierSigns : Text := "*+?\x7b\x7d,".toList

theorem mem_quantifier {q : Quantifier} (sound : q.Sound) : ∀ c ∈ q.render, c.isDigit = true ∨ c ∈ quantifierSigns := by
  intro c member
  cases q with
  | exactly n =>
    simp only [Quantifier.render, List.cons_append, List.mem_cons, List.mem_append, List.not_mem_nil,
      or_false] at member
    rcases member with rfl | inside | rfl
    · exact .inr (by decide)
    · exact .inl (sound.2 c inside)
    · exact .inr (by decide)
  | atLeast n =>
    simp only [Quantifier.render, List.cons_append, List.mem_cons, List.mem_append, List.not_mem_nil,
      or_false] at member
    rcases member with rfl | inside | rfl | rfl
    · exact .inr (by decide)
    · exact .inl (sound.2 c inside)
    · exact .inr (by decide)
    · exact .inr (by decide)
  | between n m =>
    simp only [Quantifier.render, List.cons_append, List.append_assoc, List.mem_cons, List.mem_append,
      List.not_mem_nil, or_false] at member
    rcases member with rfl | first | rfl | second | rfl
    · exact .inr (by decide)
    · exact .inl (sound.1.2 c first)
    · exact .inr (by decide)
    · exact .inl (sound.2.2 c second)
    · exact .inr (by decide)
  | _ =>
    rw [List.mem_singleton.1 member]
    exact .inr (by decide)

/-- A quantifier in braces is read as it is spelled. -/
theorem braces?_eq {t rest : Text} {q : Quantifier} (read : braces? t = some (q, rest)) :
    '\x7b' :: t = q.render ++ rest ∧ q.Sound := by
  have count (u : Text) (nonempty : u.takeWhile Char.isDigit ≠ []) : IsCount (u.takeWhile Char.isDigit) :=
    ⟨nonempty, fun c member => List.mem_takeWhile_imp member⟩
  have front {u v : Text} {c : Char} (dropped : u.dropWhile Char.isDigit = c :: v) :
      u = u.takeWhile Char.isDigit ++ c :: v := by
    rw [← dropped, List.takeWhile_append_dropWhile]
  unfold braces? at read
  simp only at read
  split at read
  · cases read
  · next least =>
    split at read
    · next behind =>
      cases read
      refine ⟨?_, count t least⟩
      conv_lhs => rw [front behind]
      simp [Quantifier.render]
    · next u comma =>
      split at read
      · next behind =>
        cases read
        by_cases most : u.takeWhile Char.isDigit = []
        · rw [if_pos most]
          refine ⟨?_, count t least⟩
          conv_lhs => rw [front comma, front behind, most]
          simp [Quantifier.render]
        · rw [if_neg most]
          refine ⟨?_, count t least, count u most⟩
          conv_lhs => rw [front comma, front behind]
          simp [Quantifier.render]
      · cases read
    · cases read

/-- An ASCII identifier. -/
def IsGroupName (name : Text) : Prop :=
  ∃ c t, name = c :: t ∧ isNameStart c = true ∧ ∀ d ∈ t, (isNameStart d || d.isDigit) = true

theorem nameTail?_eq {t name rest : Text} (read : nameTail? t = some (name, rest)) :
    t = name ++ '>' :: rest ∧ ∀ c ∈ name, (isNameStart c || c.isDigit) = true := by
  induction t generalizing name with
  | nil => cases read
  | cons c t ih =>
    rw [nameTail?] at read
    split at read
    · next closing =>
      cases read
      exact ⟨by rw [closing]; rfl, by simp⟩
    · split at read
      · next part =>
        obtain ⟨⟨name', rest'⟩, inner, same⟩ := Option.map_eq_some_iff.1 read
        cases same
        obtain ⟨rfl, parts⟩ := ih inner
        refine ⟨rfl, ?_⟩
        intro d member
        rcases List.mem_cons.1 member with rfl | later
        · exact part
        · exact parts d later
      · cases read

theorem groupName?_eq {t name rest : Text} (read : groupName? t = some (name, rest)) :
    t = name ++ '>' :: rest ∧ IsGroupName name := by
  cases t with
  | nil => cases read
  | cons c t =>
    rw [groupName?] at read
    split at read
    · next starts =>
      obtain ⟨⟨name', rest'⟩, inner, same⟩ := Option.map_eq_some_iff.1 read
      cases same
      obtain ⟨rfl, parts⟩ := nameTail?_eq inner
      exact ⟨rfl, c, name', rfl, starts, parts⟩
    · cases read

theorem Captures.scan_plain {inClass : Bool} {c : Char} (plain : c ≠ '\\') (closed : ¬ (c = '(' ∧ inClass = false))
    (t : Text) : scan inClass (c :: t) =
    scan (if c = '[' then true else if c = ']' then false else inClass) t := by
  conv_lhs => unfold scan
  split
  case h_4 same => cases same; rw [if_neg closed]; split_ifs <;> rfl
  all_goals simp_all

theorem Captures.scan_group (t : Text) : scan false ('(' :: t) =
    match t with
    | '?' :: '<' :: next :: _ =>
      if next = '=' ∨ next = '!' then scan false t else (scan false t).withGroup true
    | '?' :: _ => scan false t
    | _ => (scan false t).withGroup false := by
  rfl

end ProxyRouting.Regex
