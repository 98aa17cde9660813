import ProxyRouting.Proofs.Condition.WildcardLists
import ProxyRouting.Proofs.Url.Request
import ProxyRouting.Site

/-!
Sites and the wildcards that cover them. A look-up of registered names gives the end of a host from the start of a
label on, and so does the site of a host without its dots at the end; the wildcard for the site covers the host where
nothing is lost on the way (`isMatch_wildcardOfUrl`): dots at the end of the host, and white space behind it.
-/
namespace ProxyRouting.Site
open Text HostPattern Glob Regex

/-- A look-up of registered names gives the end of a host from the start of a label on. -/
def GivesLabels (registered? : Text → Option Text) : Prop :=
  ∀ host site, registered? host = some site → ∃ front, host = front ++ site ∧ EndsLabel front

/-- Labels joined by dots end in those from any of them on. -/
theorem join_drop (labels : List Text) {k : Nat} (some : k < labels.length) :
    ∃ front, join ['.'] labels = front ++ join ['.'] (labels.drop k) ∧ EndsLabel front := by
  refine ⟨(labels.take k).flatMap (· ++ ['.']), ?_, ?_⟩
  · conv_lhs => rw [← List.take_append_drop k labels]
    exact join_append ['.'] _ (mt List.drop_eq_nil_iff.1 (Nat.not_le_of_lt some))
  · rcases List.eq_nil_or_concat (labels.take k) with none | ⟨init, label, whole⟩
    · rw [none]
      exact .inl rfl
    · rw [whole, List.concat_eq_append, List.flatMap_append, List.flatMap_singleton, ← List.append_assoc]
      exact endsLabel_dot _

theorem registered?_givesLabels : GivesLabels registered? := by
  intro host site found
  unfold registered? at found
  simp only at found
  split at found
  · cases found
  · next enough =>
    obtain rfl := Option.some.inj found
    have kept : (host.splitOn '.').length - (suffixLength suffixRules (host.splitOn '.') + 1) < (host.splitOn '.').length :=
      by omega
    obtain ⟨front, whole, label⟩ := join_drop (host.splitOn '.') kept
    exact ⟨front, by rw [← whole, join_splitOn], label⟩

/-- Dots at the end are all that a host loses. -/
theorem dropRootDots_append (host : Text) :
    ∃ dots, host = dropRootDots host ++ dots ∧ (∀ c ∈ dots, c = '.') ∧ (dropRootDots host).getLast? ≠ some '.' := by
  obtain ⟨dots, whole, each⟩ := dropEnd_append (· = '.') host
  refine ⟨dots, whole, fun c member => of_decide_eq_true (each c member), fun last => ?_⟩
  rw [dropRootDots, List.getLast?_reverse] at last
  exact absurd (stops_dropWhile (· = '.') host.reverse '.' last) (by decide)

/-- A host that ends in something else loses none. -/
theorem dropRootDots_of_last {host : Text} {c : Char} (last : host.getLast? = some c) (noDot : c ≠ '.') :
    dropRootDots host = host := by
  obtain ⟨dots, whole, each, -⟩ := dropRootDots_append host
  cases ending : dots.getLast? with
  | none =>
    rw [List.getLast?_eq_none_iff.1 ending, List.append_nil] at whole
    exact whole.symm
  | some d =>
    rw [whole, List.getLast?_append, ending, Option.some_or, each d (List.mem_of_getLast? ending)] at last
    exact absurd (Option.some.inj last).symm noDot

theorem endsLabel_dots {dots : Text} (each : ∀ c ∈ dots, c = '.') : EndsLabel dots := by
  cases last : dots.getLast? with
  | none => exact .inl (List.getLast?_eq_none_iff.1 last)
  | some c =>
    rw [each c (List.mem_of_getLast? last)] at last
    exact .inr last

/-- What stands where a label begins is not empty if the text ends in no dot, and ends as the text does. -/
theorem getLast_behind {front site : Text} (label : EndsLabel front) {c : Char} (last : (front ++ site).getLast? = some c)
    (noDot : c ≠ '.') : site.getLast? = some c := by
  cases ending : site.getLast? with
  | some d => rwa [List.getLast?_append, ending, Option.some_or] at last
  | none =>
    rw [List.getLast?_eq_none_iff.1 ending, List.append_nil] at last
    rcases label with rfl | dot
    · cases last
    · exact absurd (Option.some.inj (last.symm.trans dot)) noDot

/-- A host keeps its end in the wildcard for its site: it is an address, or there is no dot at the end, nothing but dots,
    or a star before them, which stands for them. -/
def keepsEnd (host : Text) : Bool :=
  looksLikeAddress host || dropRootDots host = host || dropRootDots host = [] || (dropRootDots host).getLast? = some '*'

section
variable {registered? : Text → Option Text} (labels : GivesLabels registered?)
include labels

/-- The wildcard for a site is the host itself, or a star and a dot before the end of it, from the start of a label
    on. -/
theorem wildcardBy_cases (host : Text) :
    looksLikeAddress host = true ∧ wildcardBy registered? host = host ∨
      looksLikeAddress host = false ∧ ∃ front site, dropRootDots host = front ++ site ∧ EndsLabel front ∧
        wildcardBy registered? host = '*' :: '.' :: site := by
  cases address : looksLikeAddress host with
  | true => exact .inl ⟨rfl, by simp [wildcardBy, address]⟩
  | false =>
    refine .inr ⟨rfl, ?_⟩
    cases found : registered? (dropRootDots host) with
    | none => exact ⟨[], dropRootDots host, rfl, .inl rfl, by simp [wildcardBy, ofHostBy, address, found]⟩
    | some site =>
      obtain ⟨front, whole, label⟩ := labels _ _ found
      exact ⟨front, site, whole, label, by simp [wildcardBy, ofHostBy, address, found]⟩

theorem wildcardBy_ne_nil {host : Text} (present : host ≠ []) : wildcardBy registered? host ≠ [] := by
  rcases wildcardBy_cases labels host with ⟨-, whole⟩ | ⟨-, front, site, -, -, whole⟩
  · rwa [whole]
  · rw [whole]
    exact List.cons_ne_nil _ _

/-- Apart from the star and the dot, the wildcard has characters of the host only. -/
theorem mem_wildcardBy {host : Text} {c : Char} (member : c ∈ wildcardBy registered? host) :
    c = '*' ∨ c = '.' ∨ c ∈ host := by
  obtain ⟨dots, whole, -, -⟩ := dropRootDots_append host
  rcases wildcardBy_cases labels host with ⟨-, same⟩ | ⟨-, front, site, cut, -, same⟩
  · rw [same] at member
    exact .inr (.inr member)
  · rw [same, List.mem_cons, List.mem_cons] at member
    refine member.imp_right (.imp_right fun inside => ?_)
    rw [whole, cut]
    simp [inside]

/-- The wildcard ends as the host does without its dots, unless nothing is left then. -/
theorem getLast_wildcardBy {host : Text} {c : Char} (last : (dropRootDots host).getLast? = some c)
    (settled : looksLikeAddress host = true → dropRootDots host = host) :
    (wildcardBy registered? host).getLast? = some c := by
  obtain ⟨-, -, -, undotted⟩ := dropRootDots_append host
  rcases wildcardBy_cases labels host with ⟨address, whole⟩ | ⟨-, front, site, cut, label, whole⟩
  · rw [whole, ← settled address, last]
  · rw [cut] at last undotted
    have ending := getLast_behind label last fun dot => undotted (dot ▸ last)
    rw [whole, List.getLast?_cons, List.getLast?_cons, ending]
    rfl

/-- The wildcard for the site of a host that keeps its end finds the host. -/
theorem finds_wildcardBy {host : Text} (keeps : keepsEnd host = true) :
    Finds host (segmentPieces (wildcardBy registered? host)) := by
  obtain ⟨dots, whole, each, -⟩ := dropRootDots_append host
  rcases wildcardBy_cases labels host with ⟨-, same⟩ | ⟨named, front, site, cut, label, same⟩
  · rw [same]
    exact finds_segment_self host
  · have covered {x z : Text} (label : EndsLabel x) (free : site.getLast? = some '*' ∨ z = []) :
        Finds (x ++ (site ++ z)) (segmentPieces ('*' :: '.' :: site)) := finds_labelled_self label free
    simp only [keepsEnd, named, Bool.false_or, Bool.or_eq_true, decide_eq_true_eq] at keeps
    rw [same]
    rcases keeps with (undotted | empty) | starred
    · have shape : host = front ++ (site ++ []) := by rw [List.append_nil, ← cut, undotted]
      rw [shape]
      exact covered label (.inr rfl)
    · rw [empty] at cut whole
      obtain ⟨-, rfl⟩ := List.append_eq_nil_iff.1 cut.symm
      have shape : host = dots ++ ([] ++ []) := by simpa using whole
      rw [shape]
      exact covered (endsLabel_dots each) (.inr rfl)
    · rw [cut] at starred whole
      rw [whole, List.append_assoc]
      exact covered label (.inl (getLast_behind label starred (by decide)))

/-- The wildcard for the site of a host that loses its end does not find the host: it ends in another character. -/
theorem not_finds_of_lost {host : Text} (unmarked : '?' ∉ host) (lost : keepsEnd host = false) :
    ¬ Finds host (segmentPieces (wildcardBy registered? host)) := by
  intro found
  obtain ⟨dots, whole, -, undotted⟩ := dropRootDots_append host
  simp only [keepsEnd, Bool.or_eq_false_iff, decide_eq_false_iff_not] at lost
  obtain ⟨⟨⟨named, dotted⟩, present⟩, unstarred⟩ := lost
  obtain ⟨c, last⟩ := Option.isSome_iff_exists.1 (List.getLast?_isSome.2 present)
  have inside : c ∈ host := by
    rw [whole]
    exact List.mem_append_left _ (List.mem_of_getLast? last)
  have plain : c ≠ '*' ∧ c ≠ '?' ∧ c ≠ '.' :=
    ⟨fun star => unstarred (star ▸ last), fun mark => unmarked (mark ▸ inside), fun dot => undotted (dot ▸ last)⟩
  have ends := getLast_wildcardBy labels last fun address => absurd (named.symm.trans address) (by decide)
  exact dotted (dropRootDots_of_last (getLast_of_finds_segment ends plain found) plain.2.2)

/-- The wildcard for the site of a host with white space behind it does not find the host alone. -/
theorem not_finds_of_blank {host back : Text} (present : back ≠ []) (blank : ∀ c ∈ back, isBlank c = true)
    (solid : Stops isBlank host.reverse) : ¬ Finds host (segmentPieces (wildcardBy registered? (host ++ back))) := by
  intro found
  obtain ⟨c, behind⟩ := Option.isSome_iff_exists.1 (List.getLast?_isSome.2 present)
  have last : (host ++ back).getLast? = some c := by rw [List.getLast?_append, behind, Option.some_or]
  have white := blank c (List.mem_of_getLast? behind)
  have plain : c ≠ '*' ∧ c ≠ '?' ∧ c ≠ '.' := by
    refine ⟨?_, ?_, ?_⟩ <;> (rintro rfl; cases white)
  have whole := dropRootDots_of_last last plain.2.2
  have ends := getLast_wildcardBy labels (by rw [whole, last]) fun _ => whole
  have final := getLast_of_finds_segment ends plain found
  rw [solid c (by rw [List.head?_reverse, final]; rfl)] at white
  cases white

/-- Behind a host that does not end in white space, the wildcard for the site finds it only if the host keeps its end
    and no white space is written behind it. -/
theorem finds_wildcardBy_iff {host back : Text} (unmarked : '?' ∉ host) (blank : ∀ c ∈ back, isBlank c = true)
    (solid : back ≠ [] → Stops isBlank host.reverse) :
    Finds host (segmentPieces (wildcardBy registered? (host ++ back))) ↔ back = [] ∧ keepsEnd host = true := by
  by_cases none : back = []
  · subst none
    rw [List.append_nil]
    cases keeps : keepsEnd host with
    | true => simp [finds_wildcardBy labels keeps]
    | false => simp [not_finds_of_lost labels unmarked keeps]
  · exact iff_of_false (not_finds_of_blank labels none blank (solid none)) fun both => none both.1

end

/-- The wildcard for the site of a URL covers a host: that is the host in the URL, with no white space behind it, and it
    keeps its end. -/
def covers (url host : Text) : Bool := (Url.host? url).map lower = some host && keepsEnd host

/-- The wildcard for the site of the URL of a request. Unless it has a bar in it, and then the host has one, it covers
    the request exactly if it covers the host; it does if the URL is trimmed and its host has no dot at the end. -/
theorem isMatch_wildcardOfUrl {registered? : Text → Option Text} (labels : GivesLabels registered?) {url : Text}
    {r : Request} (made : Request.ofUrl? url = some r) :
    ∃ p, wildcardOfUrlBy? registered? url = some p ∧ ('|' ∈ p → '|' ∈ r.host) ∧
      ('|' ∉ p → ∀ now, (Condition.hostWildcard p).isMatch r now = .ok (covers url r.host)) ∧
      (trim url = url → '|' ∉ r.host → r.host.getLast? ≠ some '.' →
        ∀ now, (Condition.hostWildcard p).isMatch r now = .ok true) := by
  obtain ⟨named, plain⟩ := plain_host made
  have unmarked : '?' ∉ r.host := fun member => plain _ member (by decide)
  obtain ⟨back, host, blank, solid⟩ := host_of_request made
  obtain ⟨written, split, lowered⟩ := Option.map_eq_some_iff.1 host
  have present : r.host ++ back ≠ [] := by simp [named]
  have suggested : wildcardOfUrlBy? registered? url = some (wildcardBy registered? (r.host ++ back)) := by
    obtain ⟨c, others, rfl⟩ := List.exists_cons_of_ne_nil (mt lower_eq_nil.2 (lowered ▸ present))
    rw [wildcardOfUrlBy?, split, ← lowered]
  have barred : '|' ∈ wildcardBy registered? (r.host ++ back) → '|' ∈ r.host := by
    intro member
    have inside := ((mem_wildcardBy labels member).resolve_left (by decide)).resolve_left (by decide)
    exact (List.mem_append.1 inside).resolve_right fun behind => absurd (blank _ behind) (by decide)
  have exact : '|' ∉ wildcardBy registered? (r.host ++ back) → ∀ now,
      (Condition.hostWildcard (wildcardBy registered? (r.host ++ back))).isMatch r now = .ok (covers url r.host) := by
    intro single now
    refine congrArg Except.ok (Bool.eq_iff_iff.2 ?_)
    refine (finds_hostWildcard_single (wildcardBy_ne_nil labels present) single r.host).trans ?_
    rw [finds_wildcardBy_iff labels unmarked blank solid, covers, host]
    simp
  refine ⟨_, suggested, barred, exact, fun trimmed clear undotted now => ?_⟩
  rw [exact (mt barred clear) now]
  obtain ⟨c, last⟩ := Option.isSome_iff_exists.1 (List.getLast?_isSome.2 named)
  have kept := dropRootDots_of_last last fun dot => undotted (dot ▸ last)
  simp [covers, host_of_trimmed made trimmed, keepsEnd, kept]

/-- A host below a registered name, in upper case. -/
theorem isMatch_wildcardOfUrl_below : GivesLabels registered? ∧ ∃ r p,
    Request.ofUrl? "https://WWW.Example.co.uk/x".toList = some r ∧
      wildcardOfUrl? "https://WWW.Example.co.uk/x".toList = some p ∧ p = "*.example.co.uk".toList ∧
      ∀ now, (Condition.hostWildcard p).isMatch r now = .ok true := by
  have made : Request.ofUrl? "https://WWW.Example.co.uk/x".toList =
      some ⟨"https://www.example.co.uk/x".toList, "www.example.co.uk".toList, "https".toList⟩ := by decide +kernel
  have suggested : wildcardOfUrl? "https://WWW.Example.co.uk/x".toList = some "*.example.co.uk".toList := by
    decide +kernel
  obtain ⟨p, whole, -, -, matched⟩ := isMatch_wildcardOfUrl registered?_givesLabels made
  obtain rfl := Option.some.inj (whole.symm.trans suggested)
  exact ⟨registered?_givesLabels, _, _, made, suggested, rfl,
    matched (by decide +kernel) (by decide +kernel) (by decide +kernel)⟩

/-- What is lost on the way: the dot at the end of a host, the end of a URL that is not trimmed, and a host with a bar,
    which separates entries. -/
theorem not_isMatch_wildcardOfUrl : GivesLabels registered? ∧
    ∀ url ∈ ["http://example.com./".toList, "http://a.com ".toList, "http://a|b/".toList],
      ∃ r p, Request.ofUrl? url = some r ∧ wildcardOfUrl? url = some p ∧
        ∀ now, (Condition.hostWildcard p).isMatch r now = .ok false := by
  refine ⟨registered?_givesLabels, List.forall_mem_cons.2 ⟨?_, List.forall_mem_cons.2 ⟨?_, List.forall_mem_singleton.2 ?_⟩⟩⟩
  · have dropped : (Search.ofSource (HostPattern.toRegex "*.example.com".toList)).finds "example.com.".toList = false := by
      decide +kernel
    exact ⟨⟨"http://example.com./".toList, "example.com.".toList, "http".toList⟩, "*.example.com".toList,
      by decide +kernel, by decide +kernel, fun now => congrArg Except.ok dropped⟩
  · have blank : (Search.ofSource (HostPattern.toRegex "*.a.com ".toList)).finds "a.com".toList = false := by
      decide +kernel
    exact ⟨⟨"http://a.com/".toList, "a.com".toList, "http".toList⟩, "*.a.com ".toList,
      by decide +kernel, by decide +kernel, fun now => congrArg Except.ok blank⟩
  · have barred : (Search.ofSource (HostPattern.toRegex "*.a|b".toList)).finds "a|b".toList = false := by
      decide +kernel
    exact ⟨⟨"http://a|b/".toList, "a|b".toList, "http".toList⟩, "*.a|b".toList,
      by decide +kernel, by decide +kernel, fun now => congrArg Except.ok barred⟩

end ProxyRouting.Site
