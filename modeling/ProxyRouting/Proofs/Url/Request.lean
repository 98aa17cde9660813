import ProxyRouting.Proofs.Url.Parts

/-!
Requests are settled. What a request has for its URL is cut where the URL it came from was cut: lower case makes no
separator, and the slash that a missing path gets stands where the authority ended. So the URL of a request makes the
same request (`ofUrl?_settled`).
-/
namespace ProxyRouting
open Text

namespace Url

/-- A path begins with a slash. -/
def slashed (rest : Text) : Text := if rest.head? = some '/' then rest else '/' :: rest

theorem head_slashed (rest : Text) : (slashed rest).head? = some '/' := by
  unfold slashed
  split
  · assumption
  · rfl

theorem slashed_of_head {rest : Text} (slash : rest.head? = some '/') : slashed rest = rest := if_pos slash

theorem slashed_ne_nil (rest : Text) : slashed rest ≠ [] := by
  intro empty
  have head := head_slashed rest
  rw [empty] at head
  cases head

/-- An authority with its host in lower case. -/
def Authority.settled (a : Authority) : Authority := ⟨a.before, lower a.host, a.after⟩

/-- The parts of the URL of a request. -/
def Split.settled (s : Split) (a : Authority) : Split := ⟨lower s.scheme, a.settled.text, slashed s.rest⟩

/-- Lower case moves no end of a host. -/
theorem Authority.Sound.settled {a : Authority} (sound : a.Sound) : a.settled.Sound := by
  have kept {c : Char} (fixed : c.isLower = false) {host behind : Text} (absent : c ∉ host ++ behind) :
      c ∉ lower host ++ behind := by
    rw [List.mem_append, not_or] at absent ⊢
    exact ⟨notMem_lower fixed absent.1, absent.2⟩
  cases sound with
  | @bare user host after named noUser unbracketed noColon ends =>
    refine .bare named (kept (by decide) noUser) ?_ (notMem_lower (by decide) noColon) ends
    intro head
    cases host with
    | nil => cases head
    | cons c host =>
      -- the first character is a bracket only if it was one, for lower case makes none
      have absent : '[' ∉ [c] := by
        intro member
        rw [List.mem_singleton.1 member] at unbracketed
        exact unbracketed rfl
      have same : c.toLower = '[' := Option.some.inj head
      exact notMem_lower (by decide) absent (by simp [lower, same])
  | bracketed named noUser closed => exact .bracketed named (kept (by decide) noUser) (notMem_lower (by decide) closed)

theorem Authority.settled_settled (a : Authority) : a.settled.settled = a.settled := by
  rw [settled, settled, lower_lower]

theorem endsAuthority_of_isLower (c : Char) (letter : c.isLower = true) : endsAuthority c = false := by
  refine Bool.eq_false_iff.2 fun ends => ?_
  simp only [endsAuthority, Bool.or_eq_true, beq_iff_eq] at ends
  rcases ends with (rfl | rfl) | rfl <;> cases letter

/-- Lower case and the slash of the path leave the parts where they end. -/
theorem Split.Sound.settled {s : Split} (sound : s.Sound) {a : Authority} (whole : s.authority = a.text) :
    (s.settled a).Sound := by
  have inside := sound.inside
  rw [whole, Authority.text] at inside
  obtain ⟨before, others⟩ := List.forall_mem_append.1 inside
  obtain ⟨host, after⟩ := List.forall_mem_append.1 others
  constructor
  · exact mt lower_eq_nil.1 sound.present
  · exact notMem_lower (by decide) sound.noColon
  · exact List.forall_mem_append.2
      ⟨before, List.forall_mem_append.2 ⟨kind_lower endsAuthority_of_isLower host, after⟩⟩
  · intro c head
    obtain rfl : c = '/' := Option.some.inj (head.symm.trans (head_slashed s.rest))
    rfl

theorem Split.settled_settled (s : Split) (a : Authority) : (s.settled a).settled a.settled = s.settled a := by
  rw [settled, settled, lower_lower, slashed_of_head (head_slashed s.rest), Authority.settled_settled]

/-- A path ends in what it ended in before, or in its slash. -/
theorem stops_slashed {rest : Text} (ends : rest ≠ [] → Stops isBlank rest.reverse) :
    Stops isBlank (slashed rest).reverse := by
  by_cases empty : rest = []
  · subst empty
    exact stops_cons (by decide) []
  · unfold slashed
    split
    · exact ends empty
    · rw [List.reverse_cons]
      exact stops_append (ends empty) (mt List.reverse_eq_nil_iff.1 empty) ['/']

/-- A trimmed URL stays trimmed: it begins with its scheme and ends in its path. -/
theorem Split.trimmed_settled {s : Split} (sound : s.Sound) (a : Authority) (trimmed : Trimmed s.text) :
    Trimmed (s.settled a).text := by
  constructor
  · obtain ⟨c, scheme, named⟩ := List.exists_cons_of_ne_nil sound.present
    have solid : isBlank c = false := trimmed.front c (by simp [text, named])
    intro d head
    obtain rfl : c.toLower = d := by simpa [text, settled, named, lower] using head
    exact kind_toLower isBlank_of_isLower solid
  · have last : (s.settled a).text.reverse =
        (slashed s.rest).reverse ++ (lower s.scheme ++ "://".toList ++ a.settled.text).reverse := by
      simp [text, settled]
    rw [last]
    refine stops_append (stops_slashed fun present => ?_) (mt List.reverse_eq_nil_iff.1 (slashed_ne_nil s.rest)) _
    have back := trimmed.back
    rw [text, List.reverse_append, List.reverse_append, List.append_assoc] at back
    exact stops_of_append back (mt List.reverse_eq_nil_iff.1 present)

theorem plain_of_blank {c : Char} (blank : isBlank c = true) : c ∉ ':' :: separators := by
  intro member
  have solid : ∀ d ∈ ':' :: separators, isBlank d = false := forall_mem_of_all (by decide)
  rw [solid c member] at blank
  cases blank

section
variable {back : Text} (blank : ∀ c ∈ back, isBlank c = true)
include blank

/-- White space around a URL is read as part of its scheme and, if nothing follows the authority, of that. -/
theorem split?_surrounded {s : Split} (sound : s.Sound) {front : Text} (blank' : ∀ c ∈ front, isBlank c = true) :
    ∃ more rest, (more = [] ∨ more = back ∧ s.rest = []) ∧
      split? (front ++ s.text ++ back) = some ⟨front ++ s.scheme, s.authority ++ more, rest⟩ := by
  have noColon : ':' ∉ front ++ s.scheme := by
    intro member
    rcases List.mem_append.1 member with inside | inside
    · exact plain_of_blank (blank' _ inside) (List.mem_cons_self ..)
    · exact sound.noColon inside
  have present : front ++ s.scheme ≠ [] := by simp [sound.present]
  by_cases empty : s.rest = []
  · refine ⟨back, [], .inr ⟨rfl, empty⟩, split?_iff.2 ⟨by simp [Split.text, empty], present, noColon, ?_, stops_nil _⟩⟩
    refine List.forall_mem_append.2 ⟨sound.inside, fun c member => endsAuthority_of_notMem fun separator => ?_⟩
    exact plain_of_blank (blank c member) (List.mem_cons_of_mem _ separator)
  · refine ⟨[], s.rest ++ back, .inl rfl, split?_iff.2 ⟨by simp [Split.text], present, noColon, ?_, ?_⟩⟩
    · rw [List.append_nil]
      exact sound.inside
    · exact stops_append sound.ends empty back

/-- White space behind an authority is read as part of its host, if nothing else follows the host. -/
theorem Authority.of?_followed {a : Authority} (sound : a.Sound) (named : a.host ≠ []) :
    ∃ more after, (more = [] ∨ more = back ∧ a.after = []) ∧
      of? (a.text ++ back) = some ⟨a.before, a.host ++ more, after⟩ := by
  have noUser {t : Text} (absent : '@' ∉ t) : '@' ∉ t ++ back := by
    intro member
    rcases List.mem_append.1 member with inside | inside
    · exact absent inside
    · exact plain_of_blank (blank _ inside) (by decide)
  cases sound with
  | @bare user host after isUser absent unbracketed noColon ends =>
    by_cases empty : after = []
    · subst empty
      have colonless : ':' ∉ host ++ back := by
        intro member
        rcases List.mem_append.1 member with inside | inside
        · exact noColon inside
        · exact plain_of_blank (blank _ inside) (by decide)
      refine ⟨back, [], .inr ⟨rfl, rfl⟩, of?_iff.2 ⟨by simp [text], .bare isUser ?_ ?_ colonless (stops_nil _)⟩⟩
      · rw [List.append_nil] at absent ⊢
        exact noUser absent
      · obtain ⟨c, others, rfl⟩ := List.exists_cons_of_ne_nil named
        exact unbracketed
    · refine ⟨[], after ++ back, .inl rfl, of?_iff.2 ⟨by simp [text], ?_⟩⟩
      rw [List.append_nil]
      refine .bare isUser ?_ unbracketed noColon (stops_append ends empty back)
      rw [← List.append_assoc]
      exact noUser absent
  | @bracketed user host after isUser absent closed =>
    refine ⟨[], ']' :: (after ++ back), .inl rfl, of?_iff.2 ⟨by simp [text], ?_⟩⟩
    rw [List.append_nil]
    refine .bracketed isUser ?_ closed
    have whole : host ++ ']' :: (after ++ back) = host ++ ']' :: after ++ back := by simp
    rw [whole]
    exact noUser absent

end

end Url

/-- A request is made of the parts of a URL. -/
theorem ofUrl?_iff {url : Text} {r : Request} : Request.ofUrl? url = some r ↔
    ∃ (s : Url.Split) (a : Url.Authority), trim url = s.text ∧ s.Sound ∧ s.authority = a.text ∧ a.Sound ∧ a.host ≠ [] ∧
      r = ⟨(s.settled a).text, lower a.host, lower s.scheme⟩ := by
  have shape (s : Url.Split) (a : Url.Authority) : lower s.scheme ++ "://".toList ++ a.before ++ lower a.host ++ a.after ++
      Url.slashed s.rest = (s.settled a).text := by
    simp [Url.Split.text, Url.Split.settled, Url.Authority.text, Url.Authority.settled]
  simp only [Request.ofUrl?, Option.bind_eq_some_iff, Url.split?_iff, Url.Authority.of?_iff]
  constructor
  · rintro ⟨s, ⟨whole, sound⟩, a, ⟨inside, sound'⟩, made⟩
    split at made
    · cases made
    · next present =>
      refine ⟨s, a, whole, sound, inside, sound', present, ?_⟩
      rw [← shape]
      exact (Option.some.inj made).symm
  · rintro ⟨s, a, whole, sound, inside, sound', present, rfl⟩
    refine ⟨s, ⟨whole, sound⟩, a, ⟨inside, sound'⟩, ?_⟩
    rw [if_neg present, ← shape]
    rfl

/-- A request keeps the scheme at the front of its URL, where no other scheme could be read off it. -/
theorem url_of_request {url : Text} {r : Request} (made : Request.ofUrl? url = some r) :
    ':' ∉ r.scheme ∧ ∃ rest, r.url = r.scheme ++ "://".toList ++ rest := by
  obtain ⟨s, a, _, sound, _, _, _, rfl⟩ := ofUrl?_iff.1 made
  exact ⟨notMem_lower (by decide) sound.noColon, _, rfl⟩

/-- Behind the scheme of a request comes its authority, and then the slash of the path. -/
theorem split?_of_request {url : Text} {r : Request} (made : Request.ofUrl? url = some r) :
    ∃ authority path, Url.split? r.url = some ⟨r.scheme, authority, '/' :: path⟩ := by
  obtain ⟨s, a, _, sound, inside, _, _, rfl⟩ := ofUrl?_iff.1 made
  obtain ⟨path, slash⟩ := List.head?_eq_some_iff.1 (Url.head_slashed s.rest)
  refine ⟨a.settled.text, path, ?_⟩
  rw [Url.split?_iff.2 ⟨rfl, sound.settled inside⟩, Url.Split.settled, slash]

theorem scheme_ne_nil {url : Text} {r : Request} (made : Request.ofUrl? url = some r) : r.scheme ≠ [] := by
  obtain ⟨s, a, _, sound, _, _, _, rfl⟩ := ofUrl?_iff.1 made
  exact mt lower_eq_nil.1 sound.present

/-- No host has a character in it that ends an authority or the user information before it. -/
theorem notMem_host {s : Url.Split} (sound : s.Sound) {a : Url.Authority} (whole : s.authority = a.text)
    (sound' : a.Sound) : ∀ c ∈ a.host, c ∉ "/?#@".toList := by
  intro c member separator
  have inside : Url.endsAuthority c = false := sound.inside c (by simp [whole, Url.Authority.text, member])
  have noUser : '@' ∉ a.host := by
    cases sound' with
    | bare _ noUser => exact fun sign => noUser (List.mem_append_left _ sign)
    | bracketed _ noUser => exact fun sign => noUser (List.mem_append_left _ sign)
  have cases : c = '/' ∨ c = '?' ∨ c = '#' ∨ c = '@' := by simpa using separator
  rcases cases with rfl | rfl | rfl | rfl
  · cases inside
  · cases inside
  · cases inside
  · exact noUser member

/-- A request has a host, without the characters that end an authority or the user information before it. -/
theorem plain_host {url : Text} {r : Request} (made : Request.ofUrl? url = some r) :
    r.host ≠ [] ∧ ∀ c ∈ r.host, c ∉ "/?#@".toList := by
  obtain ⟨s, a, _, sound, inside, sound', present, rfl⟩ := ofUrl?_iff.1 made
  exact ⟨mt lower_eq_nil.1 present, notMem_host (sound.settled inside) rfl sound'.settled⟩

/-- The URL of a request has its host. -/
theorem host?_of_request {url : Text} {r : Request} (made : Request.ofUrl? url = some r) :
    Url.host? r.url = some r.host := by
  obtain ⟨s, a, _, sound, inside, sound', -, rfl⟩ := ofUrl?_iff.1 made
  have around : Url.Authority.of? (s.settled a).authority = some a.settled :=
    Url.Authority.of?_iff.2 ⟨rfl, sound'.settled⟩
  rw [Url.host?, Url.split?_iff.2 ⟨rfl, sound.settled inside⟩, Option.bind_some, around]
  rfl

/-- A trimmed URL has the host of its request. -/
theorem host_of_trimmed {url : Text} {r : Request} (made : Request.ofUrl? url = some r) (trimmed : trim url = url) :
    (Url.host? url).map lower = some r.host := by
  obtain ⟨s, a, whole, sound, inside, sound', -, rfl⟩ := ofUrl?_iff.1 made
  rw [trimmed] at whole
  rw [Url.host?, Url.split?_iff.2 ⟨whole, sound⟩, Option.bind_some, Url.Authority.of?_iff.2 ⟨inside, sound'⟩]
  rfl

/-- A URL has the host of its request, with the white space that stands behind it: then the host ends in something
    else. -/
theorem host_of_request {url : Text} {r : Request} (made : Request.ofUrl? url = some r) :
    ∃ back, (Url.host? url).map lower = some (r.host ++ back) ∧ (∀ c ∈ back, isBlank c = true) ∧
      (back ≠ [] → Stops isBlank r.host.reverse) := by
  obtain ⟨s, a, whole, sound, inside, sound', named, rfl⟩ := ofUrl?_iff.1 made
  obtain ⟨front, back, around, blank, blank'⟩ := trim_append url
  rw [whole] at around
  obtain ⟨behind, rest, atEnd, split⟩ := Url.split?_surrounded blank' sound blank
  have blank'' : ∀ c ∈ behind, isBlank c = true := by
    rcases atEnd with rfl | ⟨rfl, -⟩
    · exact List.forall_mem_nil _
    · exact blank'
  obtain ⟨more, after, atEnd', cut⟩ := Url.Authority.of?_followed blank'' sound' named
  have host : Url.host? url = some (a.host ++ more) := by
    rw [Url.host?, around, split, Option.bind_some, inside, cut, Option.map_some]
  have white : ∀ c ∈ more, isBlank c = true := by
    rcases atEnd' with rfl | ⟨rfl, -⟩
    · exact List.forall_mem_nil _
    · exact blank''
  refine ⟨more, ?_, white, fun present => ?_⟩
  · rw [host, Option.map_some]
    show some (lower (a.host ++ more)) = some (lower a.host ++ more)
    rw [lower, List.map_append]
    exact congrArg some (congrArg (lower a.host ++ ·) (lower_of_blank white))
  · obtain ⟨rfl, last⟩ := atEnd'.resolve_left present
    obtain ⟨rfl, last'⟩ := atEnd.resolve_left present
    have trimmed := (trimmed_trim url).back
    rw [whole, Url.Split.text, inside, Url.Authority.text, last, last'] at trimmed
    simp only [List.append_nil, List.reverse_append, List.append_assoc] at trimmed
    have solid := stops_of_append trimmed (mt List.reverse_eq_nil_iff.1 named)
    intro c head
    rw [lower, ← List.map_reverse, List.head?_map] at head
    obtain ⟨d, final, rfl⟩ := Option.map_eq_some_iff.1 head
    exact kind_toLower isBlank_of_isLower (solid d final)

/-- A name without white space and without the characters that separate the parts of a URL is the host of some URL. -/
theorem exists_host {name : Text} (present : name ≠ [])
    (plain : ∀ c ∈ name, c ∉ ':' :: '[' :: Url.separators ∧ isBlank c = false) :
    ∃ url r, Request.ofUrl? url = some r ∧ r.host = lower name := by
  let s : Url.Split := ⟨"http".toList, name, ['/']⟩
  let a : Url.Authority := ⟨[], name, []⟩
  have absent {c : Char} (sign : c ∈ ':' :: '[' :: Url.separators) : c ∉ name := fun member => (plain c member).1 sign
  have trimmed : trim s.text = s.text := by
    refine trim_of_trimmed (trimmed_of_solid ?_)
    simp only [s, Url.Split.text, List.forall_mem_append]
    exact ⟨⟨forall_mem_of_all rfl, forall_mem_of_all rfl⟩, fun c member => (plain c member).2, forall_mem_of_all rfl⟩
  have parts : s.Sound := by
    refine ⟨List.cons_ne_nil _ _, (by decide : ':' ∉ "http".toList), fun c member => ?_, stops_cons rfl []⟩
    refine Url.endsAuthority_of_notMem fun separator => (plain c member).1 ?_
    exact List.mem_cons_of_mem _ (List.mem_cons_of_mem _ separator)
  have around : a.Sound := by
    refine .bare (.inl rfl) ?_ (fun opened => ?_) (absent (by decide)) (stops_nil _)
    · rw [List.append_nil]
      exact absent (by decide)
    · exact absent (by decide) (List.mem_of_mem_head? opened)
  have inside : s.authority = a.text := (List.append_nil name).symm
  exact ⟨s.text, _, ofUrl?_iff.2 ⟨s, a, trimmed, parts, inside, around, present, rfl⟩, rfl⟩

/-- The URL of a request makes that request again. Its scheme and host are those of the request: it begins with the
    scheme, which has no colon, and `://`; the host is there, in lower case and without the characters that end a
    host; and behind the authority comes a slash. -/
theorem ofUrl?_settled {url : Text} {r : Request} (made : Request.ofUrl? url = some r) :
    Request.ofUrl? r.url = some r ∧
      (Url.scheme? r.url).map Prod.fst = some r.scheme ∧ Url.host? r.url = some r.host ∧
      r.scheme ++ "://".toList <+: r.url ∧ ':' ∉ r.scheme ∧
      r.host ≠ [] ∧ (∀ c ∈ r.host, c ∉ "/?#@".toList ∧ c.isUpper = false) ∧
      ∃ authority path, Url.split? r.url = some ⟨r.scheme, authority, '/' :: path⟩ ∧
        ∀ c ∈ authority, c ∉ "/?#".toList := by
  obtain ⟨s, a, whole, sound, inside, sound', present, rfl⟩ := ofUrl?_iff.1 made
  have settled := sound.settled inside
  have host := sound'.settled
  have split : Url.split? (s.settled a).text = some (s.settled a) := Url.split?_iff.2 ⟨rfl, settled⟩
  have around : Url.Authority.of? (s.settled a).authority = some a.settled := Url.Authority.of?_iff.2 ⟨rfl, host⟩
  have trimmed : trim (s.settled a).text = (s.settled a).text :=
    trim_of_trimmed (Url.Split.trimmed_settled sound a (whole ▸ trimmed_trim url))
  have named : a.settled.host ≠ [] := mt lower_eq_nil.1 present
  refine ⟨?_, ?_, ?_, ?_, settled.noColon, named, ?_, ?_⟩
  · refine ofUrl?_iff.2 ⟨s.settled a, a.settled, trimmed, settled, rfl, host, named, ?_⟩
    rw [Url.Split.settled_settled]
    simp only [Url.Split.settled, Url.Authority.settled, lower_lower]
  · have front : Url.scheme? (s.settled a).text = some (lower s.scheme, (s.settled a).authority ++ (s.settled a).rest) :=
      Url.scheme?_iff.2 ⟨rfl, settled.present, settled.noColon⟩
    rw [front]
    rfl
  · rw [Url.host?, split, Option.bind_some, around]
    rfl
  · exact List.prefix_append _ _
  · intro c member
    exact ⟨notMem_host settled rfl host c member, isUpper_of_mem_lower member⟩
  · obtain ⟨path, slash⟩ := List.head?_eq_some_iff.1 (Url.head_slashed s.rest)
    refine ⟨a.settled.text, path, ?_, ?_⟩
    · rw [split, Url.Split.settled, slash]
    · intro c member separator
      have ends := settled.inside c member
      have cases : c = '/' ∨ c = '?' ∨ c = '#' := by simpa using separator
      rcases cases with rfl | rfl | rfl <;> cases ends

/-- A URL with everything in it: a user, brackets, a port, no path, and white space around. -/
theorem ofUrl?_settled_bracketed : ∃ r, Request.ofUrl? " HTTP://Me:X@[FE80::A]:80?Q ".toList = some r ∧
    r.url = "http://Me:X@[fe80::a]:80/?Q".toList ∧ Request.ofUrl? r.url = some r ∧
      (Url.scheme? r.url).map Prod.fst = some r.scheme ∧ Url.host? r.url = some r.host ∧
      r.scheme ++ "://".toList <+: r.url ∧ ':' ∉ r.scheme ∧
      r.host ≠ [] ∧ (∀ c ∈ r.host, c ∉ "/?#@".toList ∧ c.isUpper = false) ∧
      ∃ authority path, Url.split? r.url = some ⟨r.scheme, authority, '/' :: path⟩ ∧
        ∀ c ∈ authority, c ∉ "/?#".toList := by
  have made : Request.ofUrl? " HTTP://Me:X@[FE80::A]:80?Q ".toList =
      some ⟨"http://Me:X@[fe80::a]:80/?Q".toList, "fe80::a".toList, "http".toList⟩ := by decide
  exact ⟨_, made, rfl, ofUrl?_settled made⟩

end ProxyRouting
