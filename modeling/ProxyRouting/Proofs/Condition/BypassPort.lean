import ProxyRouting.Proofs.Condition.Bypass
import ProxyRouting.Proofs.Condition.BypassText

/-!
What a bypass entry with a port asks of a URL. Its search runs over the whole URL, and nothing keeps the part that the
host glob takes within the authority: the entry matches the URLs that begin with such a part, the port and a slash
(`isMatch_ported_iff`). While the part holds none of the characters that end an authority, the authority is the part
and the port, and whether it names the host that the entry asks for can be read off the part (`namesPort_iff`). With
wildcards the part may reach into the path, and the request may be one for any host (`isMatch_ported_strays`).
-/
namespace ProxyRouting
open Text Url

namespace Bypass

/-- The host of an entry in its canonical spelling, which is the glob in the search of an entry with a port. -/
def hostText (entry : Text) : Text := (hostGlob (splitPort (splitScheme entry).2).1).2

/-- An entry with a port asks for its scheme, if it has one, and leaves the rest to its search in the URL. -/
theorem ofText_ported {entry port : Text} (ported : (Bypass.ofText entry).port = some port) :
    ∃ normalized, Bypass.ofText entry = ⟨(splitScheme entry).1, none, .any, some port,
      some (.ofSource (urlSource (splitScheme entry).1 (hostText entry) port)), normalized⟩ := by
  revert ported
  unfold Bypass.ofText
  split
  · exact nofun
  · simp only
    split
    · exact nofun
    · split
      · next port' behind =>
        intro ported
        obtain rfl : port' = port := Option.some.inj ported
        exact ⟨_, rfl⟩
      · exact nofun

/-- The port of an entry stands where the entry is split. -/
theorem port_of_ofText {entry port : Text} (ported : (Bypass.ofText entry).port = some port) :
    (splitPort (splitScheme entry).2).2 = some port := by
  have remote : entry ≠ localText := by
    rintro rfl
    cases ported
  rw [ofText_eq remote, Server.ofText] at ported
  split at ported
  · cases ported
  · cases found : (splitPort (splitScheme entry).2).2 with
    | none =>
      simp only [found] at ported
      cases ported
    | some port' =>
      simp only [found] at ported
      exact ported

end Bypass

/-- Behind its scheme the URL of the request begins with the part, the port and a slash. -/
def Request.Begins (r : Request) (part port : Text) : Prop :=
  ∃ rest, r.url = r.scheme ++ "://".toList ++ (part ++ ':' :: (port ++ '/' :: rest))

section
variable {entry port url : Text} {r : Request}

/-- An entry with a port matches the requests of its scheme whose URL begins with something that its host takes, and
    the port. -/
theorem isMatch_ported_iff (ported : (Bypass.ofText entry).port = some port) (made : Request.ofUrl? url = some r) :
    (Bypass.ofText entry).isMatch r = true ↔ (Bypass.ofText entry).scheme.all (· = r.scheme) = true ∧
      ∃ part, r.Begins part port ∧ Glob.takes (Bypass.hostText entry) part := by
  obtain ⟨normalized, same⟩ := Bypass.ofText_ported ported
  have search := finds_urlSource_iff (Bypass.splitScheme entry).1 (Bypass.hostText entry) port r.url
  rw [same]
  simp only [Bypass.isMatch, Option.all_none, Option.all_some, Bool.and_true, Bool.and_eq_true, search]
  refine and_congr_right fun wanted => ?_
  constructor
  · rintro ⟨front, part, rest, whole, admitted, taken⟩
    have named := scheme_of_admits made admitted whole
    exact ⟨part, ⟨rest, named ▸ whole⟩, taken⟩
  · rintro ⟨part, ⟨rest, whole⟩, taken⟩
    refine ⟨r.scheme, part, rest, whole, ?_, taken⟩
    cases scheme : (Bypass.splitScheme entry).1 with
    | none => exact ⟨scheme_ne_nil made, (url_of_request made).1⟩
    | some scheme' =>
      rw [scheme] at wanted
      exact (of_decide_eq_true wanted).symm

/-- The text is a host as an authority holds it: in brackets, or without any and without a colon. -/
def SpellsHost (t : Text) : Prop := t.head? ≠ some '[' ∧ ':' ∉ t ∨ ∃ host, t = '[' :: host ++ [']'] ∧ ']' ∉ host

/-- Behind any user information the authority of the request is its host, brackets included, with the port, and the
    glob accepts the host so written. -/
def Request.NamesPort (r : Request) (glob port : Text) : Prop :=
  ∃ s user host, split? r.url = some s ∧ splitUser s.authority = (user, host ++ ':' :: port) ∧
    (host = r.host ∨ host = '[' :: r.host ++ [']']) ∧ Glob.accepts glob host

/-- A part that stays within the authority makes it up, together with the port. -/
theorem split_of_begins (made : Request.ofUrl? url = some r) {part rest : Text}
    (within : ∀ c ∈ part, endsAuthority c = false) (plain : ∀ c ∈ port, c ∉ separators)
    (whole : r.url = r.scheme ++ "://".toList ++ (part ++ ':' :: (port ++ '/' :: rest))) :
    split? r.url = some ⟨r.scheme, part ++ ':' :: port, '/' :: rest⟩ := by
  have text : r.url = (⟨r.scheme, part ++ ':' :: port, '/' :: rest⟩ : Split).text := by simp [whole, Split.text]
  refine split?_iff.2 ⟨text, scheme_ne_nil made, (url_of_request made).1, ?_, stops_cons rfl rest⟩
  refine List.forall_mem_append.2 ⟨within, List.forall_mem_cons.2 ⟨rfl, ?_⟩⟩
  exact fun c member => endsAuthority_of_notMem (plain c member)

/-- A port is no part of user information, so that stands in front of the port and goes as far as without it. -/
theorem splitUser_ported {part user host : Text} (plain : ∀ c ∈ port, c ∉ separators)
    (split : splitUser part = (user, host)) : splitUser (part ++ ':' :: port) = (user, host ++ ':' :: port) := by
  obtain ⟨rfl, named, noUser⟩ := splitUser_iff.1 split
  refine splitUser_iff.2 ⟨List.append_assoc user host _, named, ?_⟩
  have outside : '@' ∉ port := fun member => plain '@' member (by decide)
  simp [noUser, outside]

theorem shift_ne {c d : Char} (other : c ≠ d) (x s t : Text) : c :: (x ++ s) ≠ x ++ d :: t := by
  induction x with
  | nil =>
    intro same
    exact other (List.cons.inj same).1
  | cons e x ih =>
    intro same
    obtain ⟨rfl, others⟩ := List.cons.inj same
    exact ih others

/-- A host in front of a port, where user information goes before, is spelled like one. -/
theorem spellsHost_of_host {authority user host : Text} {a : Authority}
    (split : splitUser authority = (user, host ++ ':' :: port)) (around : Authority.of? authority = some a)
    (known : host = a.host ∨ host = '[' :: a.host ++ [']']) : SpellsHost host := by
  obtain ⟨text, sound⟩ := Authority.of?_iff.1 around
  cases sound with
  | @bare user' host' after named noUser unbracketed noColon ends =>
    rcases known with same | same
    · rw [same]
      exact .inl ⟨unbracketed, noColon⟩
    · -- no host outside brackets begins like one inside them
      have again : splitUser authority = (user', host' ++ after) := splitUser_iff.2 ⟨text, named, noUser⟩
      have tail : '[' :: (host' ++ ']' :: ':' :: port) = host' ++ after := by
        simpa [same] using (Prod.mk.inj (split.symm.trans again)).2
      cases host' with
      | nil =>
        rw [List.nil_append, List.nil_append] at tail
        rw [← tail] at ends
        cases ends '[' rfl
      | cons c host' => exact absurd (congrArg some (List.cons.inj tail).1.symm) unbracketed
  | @bracketed user' host' after named noUser closed =>
    rcases known with same | same
    · have text' : authority = user' ++ '[' :: (host' ++ ']' :: after) := by simpa [Authority.text] using text
      have outside : '@' ∉ '[' :: (host' ++ ']' :: after) := List.not_mem_cons_of_ne_of_not_mem (by decide) noUser
      have again := splitUser_iff.2 ⟨text', named, outside⟩
      have tail : host' ++ ':' :: port = '[' :: (host' ++ ']' :: after) := by
        simpa [same] using (Prod.mk.inj (split.symm.trans again)).2
      exact absurd tail.symm (shift_ne (by decide) host' _ _)
    · exact .inr ⟨host', same, closed⟩

/-- What is spelled like a host in front of a port is the host that the authority is cut around. -/
theorem host_of_spellsHost {authority user host : Text} {a : Authority}
    (split : splitUser authority = (user, host ++ ':' :: port)) (around : Authority.of? authority = some a)
    (spelled : SpellsHost host) : host = a.host ∨ host = '[' :: a.host ++ [']'] := by
  obtain ⟨whole, named, noUser⟩ := splitUser_iff.1 split
  rcases spelled with ⟨unbracketed, noColon⟩ | ⟨inside, rfl, closed⟩
  · have bare := Authority.of?_bare named noUser unbracketed noColon (stops_cons (by decide) port)
    have text : Authority.text ⟨user, host, ':' :: port⟩ = authority := whole.symm
    rw [text, around] at bare
    obtain rfl := Option.some.inj bare
    exact .inl rfl
  · have tail : '[' :: inside ++ [']'] ++ ':' :: port = '[' :: (inside ++ ']' :: ':' :: port) := by simp
    rw [tail] at whole noUser
    have bracketed := Authority.of?_bracketed named (List.not_mem_of_not_mem_cons noUser) closed
    have text : Authority.text ⟨user ++ ['['], inside, ']' :: ':' :: port⟩ = authority := by
      simp [Authority.text, whole]
    rw [text, around] at bracketed
    obtain rfl := Option.some.inj bracketed
    exact .inr rfl

/-- Of a part within the authority, what stands behind the user information decides whether the request names the
    port: it has to be spelled like a host, and the glob to accept it. -/
theorem namesPort_iff (made : Request.ofUrl? url = some r) {part : Text} (within : ∀ c ∈ part, endsAuthority c = false)
    (plain : ∀ c ∈ port, c ∉ separators) (begins : r.Begins part port) (glob : Text) :
    r.NamesPort glob port ↔ SpellsHost (splitUser part).2 ∧ Glob.accepts glob (splitUser part).2 := by
  obtain ⟨rest, whole⟩ := begins
  have cut := split_of_begins made within plain whole
  have ported : splitUser (part ++ ':' :: port) = ((splitUser part).1, (splitUser part).2 ++ ':' :: port) :=
    splitUser_ported plain rfl
  have named := host?_of_request made
  obtain ⟨a, around, host⟩ : ∃ a, Authority.of? (part ++ ':' :: port) = some a ∧ a.host = r.host := by
    simpa [Url.host?, cut] using named
  constructor
  · rintro ⟨s, user, host', cut', split, known, good⟩
    obtain rfl := Option.some.inj (cut.symm.trans cut')
    have same := (Prod.mk.inj (ported.symm.trans split)).2
    obtain rfl := List.append_cancel_right same
    rw [← host] at known
    exact ⟨spellsHost_of_host split around known, good⟩
  · rintro ⟨spelled, good⟩
    have known := host_of_spellsHost ported around spelled
    rw [host] at known
    exact ⟨_, _, _, cut, ported, known, good⟩

/-- The part in a matching URL is the host of an entry without wildcards, and so the host of the request. -/
theorem namesPort_of_plain (ported : (Bypass.ofText entry).port = some port) (made : Request.ofUrl? url = some r)
    (plain : ∀ c ∈ port, c ∉ separators) (plainHost : ∀ c ∈ Bypass.hostText entry, c ∉ '*' :: separators)
    (spelled : SpellsHost (Bypass.hostText entry)) (matched : (Bypass.ofText entry).isMatch r = true) :
    r.NamesPort (Bypass.hostText entry) port := by
  obtain ⟨_, part, begins, taken⟩ := (isMatch_ported_iff ported made).1 matched
  have wildless : ∀ c ∈ Bypass.hostText entry, c ≠ '*' ∧ c ≠ '?' := by
    intro c member
    refine ⟨?_, ?_⟩
    · rintro rfl
      exact plainHost '*' member (by decide)
    · rintro rfl
      exact plainHost '?' member (by decide)
  obtain rfl := Glob.takes_plain wildless taken
  have outside : ∀ c ∈ Bypass.hostText entry, c ∉ separators :=
    fun c member separator => plainHost c member (List.mem_cons_of_mem '*' separator)
  have alone : splitUser (Bypass.hostText entry) = ([], Bypass.hostText entry) :=
    splitUser_iff.2 ⟨rfl, .inl rfl, fun sign => outside '@' sign (by decide)⟩
  have within : ∀ c ∈ Bypass.hostText entry, endsAuthority c = false :=
    fun c member => endsAuthority_of_notMem (outside c member)
  refine (namesPort_iff made within plain begins _).2 ?_
  rw [alone]
  exact ⟨spelled, Glob.accepts_of_takes taken⟩

/-- An entry with a port matches the requests of its scheme whose URL begins, behind the scheme, with a part that its
    host takes, the port and a slash. While the part holds no character that ends an authority, the request names the
    port and a host that the entry accepts just when the part, user information aside, is spelled like a host and
    accepted. If the host of the entry has no wildcards and is spelled like one, all requests that match do. -/
theorem isMatch_ported (ported : (Bypass.ofText entry).port = some port) (made : Request.ofUrl? url = some r) :
    ((Bypass.ofText entry).isMatch r = true ↔ (Bypass.ofText entry).scheme.all (· = r.scheme) = true ∧
        ∃ part, r.Begins part port ∧ Glob.takes (Bypass.hostText entry) part) ∧
      ((∀ c ∈ port, c ∉ separators) →
        (∀ part, r.Begins part port → (∀ c ∈ part, endsAuthority c = false) →
          (r.NamesPort (Bypass.hostText entry) port ↔
            SpellsHost (splitUser part).2 ∧ Glob.accepts (Bypass.hostText entry) (splitUser part).2)) ∧
        ((∀ c ∈ Bypass.hostText entry, c ∉ '*' :: separators) → SpellsHost (Bypass.hostText entry) →
          (Bypass.ofText entry).isMatch r = true → r.NamesPort (Bypass.hostText entry) port)) :=
  ⟨isMatch_ported_iff ported made, fun plain =>
    ⟨fun _ begins within => namesPort_iff made within plain begins _, namesPort_of_plain ported made plain⟩⟩

end

/-- A star that takes the user information along with a label. -/
theorem isMatch_ported_starred : (Bypass.ofText "*.b.org:8080".toList).port = some "8080".toList ∧
    ∃ r, Request.ofUrl? "http://Me@A.B.org:8080/x".toList = some r ∧ r.host = "a.b.org".toList ∧
      (Bypass.ofText "*.b.org:8080".toList).isMatch r = true ∧ r.NamesPort "*.b.org".toList "8080".toList := by
  have ported : (Bypass.ofText "*.b.org:8080".toList).port = some "8080".toList := by decide
  have made : Request.ofUrl? "http://Me@A.B.org:8080/x".toList =
      some ⟨"http://Me@a.b.org:8080/x".toList, "a.b.org".toList, "http".toList⟩ := by decide
  have host : Bypass.hostText "*.b.org:8080".toList = "*.b.org".toList := by decide
  obtain ⟨answer, named⟩ := isMatch_ported ported made
  rw [host] at answer named
  have begins : Request.Begins ⟨"http://Me@a.b.org:8080/x".toList, "a.b.org".toList, "http".toList⟩
      "Me@a.b.org".toList "8080".toList := ⟨['x'], rfl⟩
  have oneLine : Glob.OneLine "Me@a.b.org".toList := forall_mem_of_all (by decide)
  have taken : Glob.takes "*.b.org".toList "Me@a.b.org".toList := (Glob.takes_iff_accepts _ oneLine).2 (by decide)
  refine ⟨ported, _, made, rfl, answer.2 ⟨by decide, _, begins, taken⟩, ?_⟩
  have plain : ∀ c ∈ "8080".toList, c ∉ separators := forall_mem_of_all (by decide)
  have within : ∀ c ∈ "Me@a.b.org".toList, endsAuthority c = false := forall_mem_of_all (by decide)
  exact ((named plain).1 _ begins within).2 ⟨.inl (by decide), by decide⟩

/-- A star that takes a host and the path behind it, up to where the path spells the port. -/
theorem isMatch_ported_strays : ¬ ∀ (entry port url : Text) (r : Request), (Bypass.ofText entry).port = some port →
    Request.ofUrl? url = some r → (Bypass.ofText entry).isMatch r = true →
      r.NamesPort (Bypass.hostText entry) port := by
  intro all
  have ported : (Bypass.ofText "*:80".toList).port = some "80".toList := by decide
  have made : Request.ofUrl? "http://a/:80/".toList = some ⟨"http://a/:80/".toList, ['a'], "http".toList⟩ := by decide
  have oneLine : Glob.OneLine "a/".toList := forall_mem_of_all (by decide)
  have taken : Glob.takes "*".toList "a/".toList := (Glob.takes_iff_accepts _ oneLine).2 (by decide)
  have matched := (isMatch_ported_iff ported made).2 ⟨by decide, "a/".toList, ⟨[], rfl⟩, taken⟩
  obtain ⟨s, user, host, cut, split, _⟩ := all _ _ _ _ ported made matched
  have authority : s.authority = ['a'] := by
    have cut' : split? "http://a/:80/".toList = some ⟨"http".toList, ['a'], "/:80/".toList⟩ := by decide
    rw [cut'] at cut
    rw [← Option.some.inj cut]
  obtain ⟨whole, _⟩ := splitUser_iff.1 split
  rw [authority] at whole
  have colon : ':' ∈ ['a'] := by simp [whole]
  cases List.mem_singleton.1 colon

end ProxyRouting
