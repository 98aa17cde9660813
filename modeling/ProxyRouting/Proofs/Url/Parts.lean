import ProxyRouting.Proofs.Text.Cut
import ProxyRouting.Proofs.Text.Lower
import ProxyRouting.Url

/-!
The cuts of a URL. Each cut says where its parts end, and a text put together from parts that end there is cut into
them again (`split?_iff`, `of?_iff`), so a URL has one scheme, one authority and one host.
-/
namespace ProxyRouting
open Text

namespace Url

/-- The scheme ends at the first colon, so it has none, and two slashes follow. -/
theorem scheme?_iff {url scheme behind : Text} :
    scheme? url = some (scheme, behind) ↔ url = scheme ++ "://".toList ++ behind ∧ scheme ≠ [] ∧ ':' ∉ scheme := by
  constructor
  · intro found
    unfold scheme? at found
    split at found
    · cases found
    · next present cut =>
      cases found
      exact ⟨by simpa using cut?_eq cut, present, notMem_of_cut? cut⟩
    · cases found
  · rintro ⟨rfl, present, noColon⟩
    obtain ⟨c, others, rfl⟩ := List.exists_cons_of_ne_nil present
    have cut := cut?_single noColon ('/' :: '/' :: behind)
    have shape : c :: others ++ "://".toList ++ behind = c :: others ++ ':' :: '/' :: '/' :: behind := by simp
    rw [scheme?, shape, cut]
    rfl

/-- In a text that begins with a scheme, `://` stands behind this scheme, or again behind that. -/
theorem behind_scheme {scheme rest x rest' : Text} (noColon : ':' ∉ scheme)
    (same : scheme ++ "://".toList ++ rest = x ++ "://".toList ++ rest') :
    x = scheme ∧ rest = rest' ∨ ∃ more, x = scheme ++ "://".toList ++ more ∧ rest = more ++ "://".toList ++ rest' := by
  rw [List.append_assoc, List.append_assoc, List.append_eq_append_iff] at same
  rcases same with ⟨more, rfl, tail⟩ | ⟨more, rfl, tail⟩
  · match more, tail with
    | [], tail => exact .inl ⟨by simp, by simpa using tail⟩
    | [c], tail => simp at tail
    | [c, d], tail => simp at tail
    | c :: d :: e :: more, tail =>
      obtain ⟨rfl, rfl, rfl, behind⟩ : ':' = c ∧ '/' = d ∧ '/' = e ∧ rest = more ++ "://".toList ++ rest' := by
        simpa using tail
      exact .inr ⟨more, by simp, behind⟩
  · cases more with
    | nil => exact .inl ⟨by simp, by simpa using tail.symm⟩
    | cons c more =>
      have first : c = ':' := by
        have head := congrArg List.head? tail
        simpa using head.symm
      exact absurd (by simp [first]) noColon

/-- Of two texts before `://`, the one without a colon is the other, which was cut off at its first `://`. -/
theorem scheme_unique {entry scheme server plain rest rest' : Text} (cut : cut? "://".toList entry = some (scheme, server))
    (noColon : ':' ∉ plain) (same : plain ++ "://".toList ++ rest = scheme ++ "://".toList ++ rest') : scheme = plain := by
  rcases behind_scheme noColon same with ⟨here, -⟩ | ⟨more, rfl, -⟩
  · exact here
  · have shorter := length_le_of_cut? cut plain (more ++ "://".toList ++ server) (by rw [cut?_eq cut]; simp)
    simp only [List.length_append] at shorter
    have mark : "://".toList.length = 3 := rfl
    omega

/-- The characters that end an authority or the user information in it. -/
def separators : Text := "/?#@".toList

theorem endsAuthority_of_notMem {c : Char} (plain : c ∉ separators) : endsAuthority c = false := by
  refine Bool.eq_false_iff.2 fun ends => plain ?_
  simp only [endsAuthority, Bool.or_eq_true, beq_iff_eq] at ends
  rcases ends with (rfl | rfl) | rfl <;> decide

/-- The URL of its parts. -/
def Split.text (s : Split) : Text := s.scheme ++ "://".toList ++ (s.authority ++ s.rest)

/-- Where the parts of a URL end: the scheme, which is not empty, at the first colon, the authority at the first
    character that ends one. -/
structure Split.Sound (s : Split) : Prop where
  present : s.scheme ≠ []
  noColon : ':' ∉ s.scheme
  inside : ∀ c ∈ s.authority, endsAuthority c = false
  ends : Stops (!endsAuthority ·) s.rest

/-- A URL is cut into the parts it is made of. -/
theorem split?_iff {url : Text} {s : Split} : split? url = some s ↔ url = s.text ∧ s.Sound := by
  constructor
  · intro found
    obtain ⟨⟨scheme, behind⟩, front, rfl⟩ := Option.map_eq_some_iff.1 found
    obtain ⟨rfl, present, noColon⟩ := scheme?_iff.1 front
    refine ⟨?_, present, noColon, ?_, stops_dropWhile _ behind⟩
    · rw [Split.text, List.takeWhile_append_dropWhile]
    · intro c member
      simpa using List.mem_takeWhile_imp member
  · rintro ⟨rfl, present, noColon, inside, ends⟩
    have front : scheme? s.text = some (s.scheme, s.authority ++ s.rest) := scheme?_iff.2 ⟨rfl, present, noColon⟩
    have run : ∀ c ∈ s.authority, (!endsAuthority c) = true := by
      intro c member
      rw [inside c member]
      rfl
    rw [split?, front, Option.map_some]
    simp only [takeWhile_run run ends, dropWhile_run run ends]

/-- User information: nothing, or a name and the sign behind it. -/
def IsUser (t : Text) : Prop := t = [] ∨ ∃ name, t = name ++ ['@']

/-- The user information goes up to the last sign. -/
theorem splitUser_iff {t user rest : Text} :
    splitUser t = (user, rest) ↔ t = user ++ rest ∧ IsUser user ∧ '@' ∉ rest := by
  constructor
  · intro split
    unfold splitUser at split
    cases cut : cutLast? '@' t with
    | none =>
      rw [cut] at split
      cases split
      exact ⟨rfl, .inl rfl, cutLast?_none.1 cut⟩
    | some found =>
      rw [cut] at split
      cases split
      exact ⟨by simpa using cutLast?_eq cut, .inr ⟨_, rfl⟩, notMem_of_cutLast? cut⟩
  · rintro ⟨rfl, rfl | ⟨name, rfl⟩, last⟩
    · rw [splitUser, List.nil_append, cutLast?_none.2 last]
    · have shape : name ++ ['@'] ++ rest = name ++ '@' :: rest := by simp
      rw [splitUser, shape, cutLast?_single name last]

namespace Authority

/-- The authority of its parts. -/
def text (a : Authority) : Text := a.before ++ (a.host ++ a.after)

/-- Where the host of an authority stands: behind the user information, and then up to the first colon, or, in
    brackets, up to the first that closes them. -/
inductive Sound : Authority → Prop
  | bare {user host after : Text} (named : IsUser user) (noUser : '@' ∉ host ++ after)
      (unbracketed : host.head? ≠ some '[') (noColon : ':' ∉ host) (ends : Stops (· ≠ ':') after) :
      Sound ⟨user, host, after⟩
  | bracketed {user host after : Text} (named : IsUser user) (noUser : '@' ∉ host ++ ']' :: after)
      (closed : ']' ∉ host) : Sound ⟨user ++ ['['], host, ']' :: after⟩

/-- An authority is cut around a host. -/
theorem sound_of_of? {t : Text} {a : Authority} (found : of? t = some a) : t = a.text ∧ a.Sound := by
  unfold of? at found
  split at found
  · next user rest split =>
    obtain ⟨rfl, named, noUser⟩ := splitUser_iff.1 split
    obtain ⟨⟨host, after⟩, cut, rfl⟩ := Option.map_eq_some_iff.1 found
    have whole : rest = host ++ ']' :: after := by simpa using cut?_eq cut
    subst whole
    refine ⟨by simp [text], .bracketed named ?_ (notMem_of_cut? cut)⟩
    exact fun member => noUser (List.mem_cons_of_mem _ member)
  · next user rest other split =>
    obtain ⟨rfl, named, noUser⟩ := splitUser_iff.1 split
    cases found
    refine ⟨?_, .bare named ?_ (head_takeWhile ?_) ?_ (stops_dropWhile _ rest)⟩
    · rw [text, List.takeWhile_append_dropWhile]
    · rwa [List.takeWhile_append_dropWhile]
    · rintro behind rfl
      exact other behind rfl
    · intro member
      simpa using List.mem_takeWhile_imp member

theorem of?_bare {user host after : Text} (named : IsUser user) (noUser : '@' ∉ host ++ after)
    (unbracketed : host.head? ≠ some '[') (noColon : ':' ∉ host) (ends : Stops (· ≠ ':') after) :
    of? (text ⟨user, host, after⟩) = some ⟨user, host, after⟩ := by
  have split : splitUser (text ⟨user, host, after⟩) = (user, host ++ after) := splitUser_iff.2 ⟨rfl, named, noUser⟩
  have run : ∀ c ∈ host, decide (c ≠ ':') = true := by
    intro c member
    refine decide_eq_true ?_
    rintro rfl
    exact noColon member
  have plain (rest : Text) : host ++ after ≠ '[' :: rest := by
    intro same
    cases host with
    | nil =>
      have stop := ends '[' (by rw [List.nil_append] at same; rw [same]; rfl)
      cases stop
    | cons c host =>
      obtain ⟨rfl, _⟩ := List.cons.inj same
      exact unbracketed rfl
  unfold of?
  rw [split]
  split
  · next rest same => exact absurd (Prod.mk.inj same).2 (plain rest)
  · next same =>
    obtain ⟨rfl, rfl⟩ := Prod.mk.inj same
    rw [takeWhile_run run ends, dropWhile_run run ends]

theorem of?_bracketed {user host after : Text} (named : IsUser user) (noUser : '@' ∉ host ++ ']' :: after)
    (closed : ']' ∉ host) :
    of? (text ⟨user ++ ['['], host, ']' :: after⟩) = some ⟨user ++ ['['], host, ']' :: after⟩ := by
  have split : splitUser (text ⟨user ++ ['['], host, ']' :: after⟩) = (user, '[' :: (host ++ ']' :: after)) := by
    refine splitUser_iff.2 ⟨by simp [text], named, ?_⟩
    intro member
    rcases List.mem_cons.1 member with sign | inside
    · cases sign
    · exact noUser inside
  simp only [of?, split, cut?_single closed, Option.map_some]

/-- The parts of an authority are those it is cut into. -/
theorem of?_iff {t : Text} {a : Authority} : of? t = some a ↔ t = a.text ∧ a.Sound := by
  constructor
  · exact sound_of_of?
  · rintro ⟨rfl, sound⟩
    cases sound with
    | bare named noUser unbracketed noColon ends => exact of?_bare named noUser unbracketed noColon ends
    | bracketed named noUser closed => exact of?_bracketed named noUser closed

end Authority
end Url
end ProxyRouting
