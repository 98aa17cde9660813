import ProxyRouting.Proofs.Condition.WildcardLists
import ProxyRouting.Proofs.Url.Request

/-!
URL wildcards that are shaped like a host, `*://HOST/*`, beside the host wildcard HOST. The first looks for `://`, the
host and a slash anywhere in the URL, the second looks at the host alone and reads `*.` and a dot at its beginning in
its own way. They agree where the host glob can stand for nothing but the authority, the authority is just the host, and
the host is none that a leading `*.` or dot adds (`isMatch_hostShaped`).
-/
namespace ProxyRouting
open Text Regex Glob

namespace Glob

theorem accepts_star_star (glob t : Text) : accepts ('*' :: '*' :: glob) t ↔ accepts ('*' :: glob) t := by
  constructor
  · intro good
    obtain ⟨x, _, rfl, inner⟩ := (accepts_star _ _).1 good
    obtain ⟨y, z, rfl, rest⟩ := (accepts_star _ _).1 inner
    exact (accepts_star _ _).2 ⟨x ++ y, z, by simp, rest⟩
  · intro good
    exact (accepts_star _ _).2 ⟨[], t, rfl, good⟩

theorem accepts_dot (glob t : Text) : accepts ('.' :: glob) t ↔ ∃ rest, t = '.' :: rest ∧ accepts glob rest := by
  rw [accepts_cons (by decide)]
  constructor
  · rintro ⟨d, rest, rfl, same, good⟩
    exact ⟨rest, by rw [same.resolve_left (by decide)], good⟩
  · rintro ⟨rest, rfl, good⟩
    exact ⟨'.', rest, rfl, .inr rfl, good⟩

end Glob

namespace HostPattern

/-- The hosts that a segment means because it begins with `*.` or a dot: the bare domain and, behind a dot alone, all
    that has a label boundary before the rest. -/
def Adds (segment host : Text) : Prop :=
  (∃ rest, segment = '*' :: '.' :: rest ∧ accepts rest host) ∨
    ∃ rest, segment = '.' :: rest ∧ ∃ x y, host = x ++ y ∧ EndsLabel x ∧ accepts rest y

theorem accepts_iff_adds (segment host : Text) : Accepts segment host ↔ accepts segment host ∨ Adds segment host := by
  by_cases dotted : segment.head? = some '.'
  · obtain ⟨rest, rfl⟩ := List.head?_eq_some_iff.1 dotted
    have means : Accepts ('.' :: rest) host ↔ ∃ x y, host = x ++ y ∧ EndsLabel x ∧ accepts rest y := Iff.rfl
    rw [means]
    constructor
    · intro label
      exact .inr (.inr ⟨rest, rfl, label⟩)
    · rintro (good | ⟨_, starred, _⟩ | ⟨_, same, label⟩)
      · obtain ⟨y, rfl, good⟩ := (accepts_dot rest host).1 good
        exact ⟨['.'], y, rfl, endsLabel_dot [], good⟩
      · cases starred
      · cases same
        exact label
  · have whole : expandDot segment = segment := if_neg dotted
    -- two stars or more mean what one means, one star and a dot is a label boundary, and anything else is a glob
    unfold Accepts
    rw [whole]
    split
    · next rest => simp [accepts_star_star, Adds]
    · next rest =>
      constructor
      · rintro ⟨x, y, rfl, rfl | last, good⟩
        · exact .inr (.inl ⟨rest, rfl, good⟩)
        · obtain ⟨before, rfl⟩ := List.getLast?_eq_some_iff.1 last
          exact .inl ((accepts_star _ _).2 ⟨before, '.' :: y, by simp, (accepts_dot rest _).2 ⟨y, rfl, good⟩⟩)
      · rintro (good | ⟨_, same, good⟩ | ⟨_, dot, _⟩)
        · obtain ⟨x, _, rfl, inner⟩ := (accepts_star _ _).1 good
          obtain ⟨y, rfl, good'⟩ := (accepts_dot rest _).1 inner
          exact ⟨x ++ ['.'], y, by simp, endsLabel_dot x, good'⟩
        · cases same
          exact ⟨[], host, rfl, .inl rfl, good⟩
        · cases dot
    · next below domain =>
      refine (or_iff_left ?_).symm
      rintro (⟨rest, starred, _⟩ | ⟨rest, dot, _⟩)
      · exact domain rest starred
      · exact dotted (by rw [dot]; rfl)

end HostPattern

namespace Url

/-- Up to the first slash a text has only one beginning. -/
theorem before_slash {authority part path rest : Text} (inside : '/' ∉ authority) (inside' : '/' ∉ part)
    (same : authority ++ '/' :: path = part ++ '/' :: rest) : part = authority := by
  have cut := cut?_single inside path
  rw [same, cut?_single inside' rest] at cut
  exact (Prod.mk.inj (Option.some.inj cut)).1

/-- Behind the authority nothing lets a host glob stand for more than the authority: there is no slash but the one that
    begins the path, or no wildcard in the glob and no other `://`. -/
def Confines (authority path glob : Text) : Prop :=
  '/' ∉ path ∨ (∀ c ∈ glob, c ≠ '*' ∧ c ≠ '?') ∧ ¬ "://".toList <:+: authority ++ '/' :: path

theorem eq_authority {scheme authority path glob x part rest : Text} (noColon : ':' ∉ scheme) (inside : '/' ∉ authority)
    (confined : Confines authority path glob) (noSlash : '/' ∉ glob) (taken : takes glob part)
    (same : scheme ++ "://".toList ++ (authority ++ '/' :: path) = x ++ "://".toList ++ (part ++ '/' :: rest)) :
    part = authority := by
  -- the `://` of the match is the one behind the scheme or a later one, which the slashes or `Confines` rule out
  rcases behind_scheme noColon same with ⟨-, behind⟩ | ⟨more, -, behind⟩
  · rcases confined with last | ⟨plain, -⟩
    · refine before_slash inside (fun member => ?_) behind
      have slashes := congrArg (List.count '/') behind
      have some : 0 < List.count '/' part := List.count_pos_iff.2 member
      simp [List.count_eq_zero.2 last, List.count_eq_zero.2 inside] at slashes
      omega
    · exact before_slash inside (takes_plain plain taken ▸ noSlash) behind
  · rcases confined with last | ⟨-, once⟩
    · have slashes := congrArg (List.count '/') behind
      simp [List.count_eq_zero.2 last, List.count_eq_zero.2 inside] at slashes
      omega
    · refine absurd ⟨more, part ++ '/' :: rest, ?_⟩ once
      exact behind.symm

end Url

section
variable {pattern glob : Text}

theorem hostOfUrlGlob?_iff : hostOfUrlGlob? pattern = some glob ↔
    pattern = "*://".toList ++ (glob ++ "/*".toList) ∧ glob ≠ [] ∧ ∀ c ∈ glob, isHostGlobChar c = true := by
  rw [← List.all_eq_true]
  constructor
  · intro shaped
    unfold hostOfUrlGlob? at shaped
    split at shaped
    · cases shaped
    · next rest lead =>
      split at shaped
      · next host tail =>
        obtain ⟨plain, rfl⟩ := Option.ite_some_none_eq_some.1 shaped
        exact ⟨by rw [dropLead?_eq_some.1 lead, dropTail?_eq_some.1 tail], plain⟩
      · cases shaped
  · rintro ⟨rfl, plain⟩
    have lead : dropLead? "*://".toList ("*://".toList ++ (glob ++ "/*".toList)) = some (glob ++ "/*".toList) :=
      dropLead?_eq_some.2 rfl
    have tail : dropTail? "/*".toList (glob ++ "/*".toList) = some glob := dropTail?_eq_some.2 rfl
    simp only [hostOfUrlGlob?, lead, tail, if_pos plain]

theorem notMem_of_isHostGlobChar (chars : ∀ c ∈ glob, isHostGlobChar c = true) {sign : Char}
    (other : isHostGlobChar sign = false) : sign ∉ glob := by
  intro member
  rw [chars sign member] at other
  cases other

/-- The stars at its ends aside, such a URL wildcard is `://`, the host and a slash. -/
theorem formPieces_hostShaped (glob : Text) : formPieces true ("*://".toList ++ (glob ++ "/*".toList)) =
    leading true ++ (pieces ("://".toList ++ (glob ++ ['/'])) ++ closing true) := by
  have trimmed : trimStars ("*://".toList ++ (glob ++ "/*".toList)) = "://".toList ++ (glob ++ ['/']) := by
    simp [trimStars]
  have last : ("*://".toList ++ (glob ++ "/*".toList)).getLast? = some '*' := by
    rw [← List.append_assoc, List.getLast?_append]
    rfl
  rw [formPieces, if_pos rfl, trimmed, last]
  rfl

/-- Such a URL wildcard looks for `://`, the host and a slash anywhere in a URL. -/
theorem finds_hostShaped (shaped : hostOfUrlGlob? pattern = some glob) (url : Text) :
    (Search.ofSource (listToRegex true pattern)).finds url = true ↔
      ∃ x part rest, url = x ++ "://".toList ++ (part ++ '/' :: rest) ∧ takes glob part := by
  obtain ⟨rfl, -, chars⟩ := hostOfUrlGlob?_iff.1 shaped
  have single : '|' ∉ "*://".toList ++ (glob ++ "/*".toList) := by
    simp [notMem_of_isHostGlobChar chars (by decide +kernel : isHostGlobChar '|' = false)]
  have plain : ∀ c ∈ "://".toList, c ≠ '*' ∧ c ≠ '?' := forall_mem_of_all (by decide)
  have slash : ∀ c ∈ ['/'], c ≠ '*' ∧ c ≠ '?' := forall_mem_of_all (by decide)
  rw [finds_listToRegex_iff, ← segments_eq_nil, SomeEntry, segments_single (by simp) single]
  simp only [List.mem_singleton, exists_eq_left, List.cons_ne_self, false_or, formPieces_hostShaped]
  rw [finds_taken_behind (leading_reaches true)]
  simp only [true_or, true_and, and_true]
  constructor
  · rintro ⟨x, _, z, rfl, taken⟩
    obtain ⟨lead, _, rfl, first, others⟩ := (takes_append _ _ _).1 taken
    obtain ⟨part, last, rfl, taken, final⟩ := (takes_append _ _ _).1 others
    rw [takes_plain plain first, takes_plain slash final]
    exact ⟨x, part, z, by simp, taken⟩
  · rintro ⟨x, part, rest, rfl, taken⟩
    refine ⟨x, "://".toList ++ (part ++ ['/']), rest, by simp, ?_⟩
    exact (takes_append _ _ _).2 ⟨_, _, rfl, takes_self _, (takes_append _ _ _).2 ⟨_, _, rfl, taken, takes_self _⟩⟩

/-- A host wildcard without bars accepts hosts as a glob, and what its beginning adds. -/
theorem finds_hostGlob (present : glob ≠ []) (single : '|' ∉ glob) {host : Text} (oneLine : OneLine host) :
    (Search.ofSource (HostPattern.toRegex glob)).finds host = true ↔ accepts glob host ∨ HostPattern.Adds glob host := by
  rw [finds_hostWildcard_single present single, HostPattern.finds_segmentPieces glob oneLine,
    HostPattern.accepts_iff_adds]

end

namespace Condition

section
variable {pattern glob : Text}

/-- A URL wildcard in the shape of a host matches the URLs in which something that the host glob takes stands between
    `://` and a slash; if the glob can stand for nothing but the authority, it has to take that. The host wildcard
    matches the hosts that the glob accepts and those that its beginning adds. So where the authority is the host and
    confines the glob, the two answer alike just if the host is accepted or not added. -/
theorem isMatch_hostShaped {url : Text} {r : Request} (shaped : hostOfUrlGlob? pattern = some glob)
    (made : Request.ofUrl? url = some r) (now : LocalTime) :
    ∃ (authority path : Text) (byUrl byHost : Bool),
      Url.split? r.url = some ⟨r.scheme, authority, '/' :: path⟩ ∧
      (Condition.urlWildcard pattern).isMatch r now = .ok byUrl ∧
      (Condition.hostWildcard glob).isMatch r now = .ok byHost ∧
      (byUrl = true ↔ ∃ x part rest, r.url = x ++ "://".toList ++ (part ++ '/' :: rest) ∧ takes glob part) ∧
      (Url.Confines authority path glob → (byUrl = true ↔ takes glob authority)) ∧
      (OneLine r.host → (byHost = true ↔ accepts glob r.host ∨ HostPattern.Adds glob r.host)) ∧
      (Url.Confines authority path glob → OneLine r.host → authority = r.host →
        (byUrl = byHost ↔ accepts glob r.host ∨ ¬ HostPattern.Adds glob r.host)) := by
  obtain ⟨authority, path, split⟩ := split?_of_request made
  obtain ⟨-, present, chars⟩ := hostOfUrlGlob?_iff.1 shaped
  obtain ⟨whole, sound⟩ := Url.split?_iff.1 split
  rw [Url.Split.text] at whole
  have noSlash := notMem_of_isHostGlobChar chars (by decide +kernel : isHostGlobChar '/' = false)
  have single := notMem_of_isHostGlobChar chars (by decide +kernel : isHostGlobChar '|' = false)
  have inside : '/' ∉ authority := fun member => Bool.noConfusion (sound.inside '/' member)
  have byUrl := finds_hostShaped shaped r.url
  have confined (confines : Url.Confines authority path glob) :
      (Search.ofSource (listToRegex true pattern)).finds r.url = true ↔ takes glob authority := by
    rw [byUrl]
    constructor
    · rintro ⟨x, part, rest, same, taken⟩
      rw [whole] at same
      rwa [← Url.eq_authority sound.noColon inside confines noSlash taken same]
    · intro taken
      exact ⟨r.scheme, authority, path, whole, taken⟩
  have byHost (oneLine : OneLine r.host) := finds_hostGlob present single oneLine
  refine ⟨authority, path, (Search.ofSource (listToRegex true pattern)).finds r.url,
    (Search.ofSource (HostPattern.toRegex glob)).finds r.host, split, rfl, rfl, byUrl, confined, byHost,
    fun confines oneLine bare => ?_⟩
  rw [Bool.eq_iff_iff, confined confines, byHost oneLine, bare, takes_iff_accepts glob oneLine]
  by_cases accepted : accepts glob r.host = true
  · simp [accepted]
  · simp [accepted]

end

/-- A host glob that stands for the whole authority. -/
theorem isMatch_hostShaped_marked : hostOfUrlGlob? "*://a?.org/*".toList = some "a?.org".toList ∧
    ∃ r, Request.ofUrl? "http://ab.org/x".toList = some r ∧ ∀ now,
      (Condition.urlWildcard "*://a?.org/*".toList).isMatch r now = .ok true ∧
      (Condition.hostWildcard "a?.org".toList).isMatch r now = .ok true := by
  have shaped : hostOfUrlGlob? "*://a?.org/*".toList = some "a?.org".toList := by decide +kernel
  have made : Request.ofUrl? "http://ab.org/x".toList =
      some ⟨"http://ab.org/x".toList, "ab.org".toList, "http".toList⟩ := by decide
  have oneLine : OneLine "ab.org".toList := forall_mem_of_all (by decide)
  have accepted : accepts "a?.org".toList "ab.org".toList := by decide
  refine ⟨shaped, _, made, fun now => ?_⟩
  obtain ⟨authority, path, byUrl, byHost, split, one, two, -, -, answer, agree⟩ := isMatch_hostShaped shaped made now
  have cut : Url.split? "http://ab.org/x".toList = some ⟨"http".toList, "ab.org".toList, "/x".toList⟩ := by decide
  obtain ⟨rfl, rfl⟩ : authority = "ab.org".toList ∧ path = ['x'] := by
    rw [cut] at split
    cases split
    exact ⟨rfl, rfl⟩
  obtain rfl := (answer oneLine).2 (.inl accepted)
  obtain rfl := (agree (.inl (by decide)) oneLine rfl).2 (.inl accepted)
  exact ⟨one, two⟩

/-- The URL wildcard has the shape of the host glob, and the two do not answer alike for the request of the URL. -/
def Differ (pattern glob url : Text) : Prop :=
  hostOfUrlGlob? pattern = some glob ∧ ∃ r, Request.ofUrl? url = some r ∧
    ∀ now, (Condition.urlWildcard pattern).isMatch r now ≠ (Condition.hostWildcard glob).isMatch r now

theorem differ_of_finds {pattern glob url : Text} {r : Request} (shaped : hostOfUrlGlob? pattern = some glob)
    (made : Request.ofUrl? url = some r) (other : (Search.ofSource (listToRegex true pattern)).finds r.url ≠
      (Search.ofSource (HostPattern.toRegex glob)).finds r.host) : Differ pattern glob url :=
  ⟨shaped, r, made, fun _ same => other (Except.ok.inj same)⟩

/-- A bare domain, which only the host wildcard adds; a port, which only the URL has; and a path in which the host glob
    ends. -/
theorem isMatch_hostShaped_strays :
    Differ "*://*.example.com/*".toList "*.example.com".toList "http://example.com/".toList ∧
    Differ "*://example.com/*".toList "example.com".toList "http://example.com:8080/".toList ∧
    Differ "*://*.com/*".toList "*.com".toList "http://evil.org/x.com/".toList := by
  have bare : Request.ofUrl? "http://example.com/".toList =
      some ⟨"http://example.com/".toList, "example.com".toList, "http".toList⟩ := by decide
  have ported : Request.ofUrl? "http://example.com:8080/".toList =
      some ⟨"http://example.com:8080/".toList, "example.com".toList, "http".toList⟩ := by decide
  have spread : Request.ofUrl? "http://evil.org/x.com/".toList =
      some ⟨"http://evil.org/x.com/".toList, "evil.org".toList, "http".toList⟩ := by decide
  exact ⟨differ_of_finds (by decide +kernel) bare (by decide +kernel),
    differ_of_finds (by decide +kernel) ported (by decide +kernel),
    differ_of_finds (by decide +kernel) spread (by decide +kernel)⟩

end Condition
end ProxyRouting
