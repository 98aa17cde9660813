import ProxyRouting.Condition.Analysis
import ProxyRouting.Proofs.Condition.BypassPort
import ProxyRouting.Proofs.Condition.TextForm
import ProxyRouting.Proofs.Condition.Written

/-!
What ends a line in a script, and where it gets into the sources of searches. No source that is written for a text adds
such a character, none of them escapes one, and the stars that are traded for missing anchors are others. So a source
has those of the text that it is written for (`carries_iff`).
-/
namespace ProxyRouting
open Text Regex

/-- The characters that end a line of a script. -/
def lineEnds : Text := ['\n', '\r', '\u2028', '\u2029']

section
variable {ch : Char} (ends : ch ∈ lineEnds)
include ends

theorem notMem_of_lineEnd {t : Text} (other : t.all (fun c => decide (c ∉ lineEnds)) = true) : ch ∉ t :=
  fun member => forall_mem_of_all other ch member ends

theorem ne_of_lineEnd {c : Char} (other : c ∉ lineEnds) : ch ≠ c := by
  rintro rfl
  exact other ends

namespace Glob

theorem mem_charBody (c : Char) : ch ∈ charBody c ↔ ch = c := by
  have run : ch ∉ ".*".toList := notMem_of_lineEnd ends (by decide)
  have any : ch ≠ '.' := ne_of_lineEnd ends (by decide)
  have escape : ch ≠ '\\' := ne_of_lineEnd ends (by decide)
  unfold charBody
  split_ifs with star mark
  · simp only [run, star, ne_of_lineEnd ends (by decide : '*' ∉ lineEnds)]
  · simp only [List.mem_singleton, any, mark, ne_of_lineEnd ends (by decide : '?' ∉ lineEnds)]
  · simp only [List.mem_cons, escape, List.not_mem_nil, or_false, false_or]
  · exact List.mem_singleton

theorem mem_body (glob : Text) : ch ∈ body glob ↔ ch ∈ glob := by
  simp only [body, List.mem_flatMap, mem_charBody ends, exists_eq_right']

theorem mem_trimStars (glob : Text) : ch ∈ trimStars glob ↔ ch ∈ glob := by
  have star : ch ≠ '*' := ne_of_lineEnd ends (by decide)
  obtain ⟨before, behind, whole, -, -⟩ := trimStars_eq glob
  conv_rhs => rw [whole]
  simp [star]

theorem mem_searching (glob : Text) : ch ∈ toRegex true glob ↔ ch ∈ glob := by
  have start : ch ≠ '^' := ne_of_lineEnd ends (by decide)
  have finish : ch ≠ '$' := ne_of_lineEnd ends (by decide)
  have begun : ch ∉ if glob.head? = some '*' then [] else ['^'] := by split <;> simp [start]
  have ended : ch ∉ if glob.getLast? = some '*' then [] else ['$'] := by split <;> simp [finish]
  rw [toRegex, if_pos rfl, searching, List.mem_append, List.mem_append, mem_body ends, mem_trimStars ends]
  simp only [begun, ended, false_or, or_false]

/-- A list has a character where one of its entries has. -/
theorem mem_list (list : Text) (write : Text → Text) (kept : ∀ entry, ch ∈ write entry ↔ ch ∈ entry) :
    ch ∈ join ['|'] ((segments list).map write) ↔ ch ∈ list := by
  have bar : ch ∉ ['|'] := notMem_of_lineEnd ends (by decide)
  conv_rhs => rw [← join_splitOn '|' list]
  simp only [mem_join bar, List.mem_map, segments, List.mem_filter, decide_eq_true_eq]
  constructor
  · rintro ⟨_, ⟨entry, ⟨listed, -⟩, rfl⟩, inside⟩
    exact ⟨entry, listed, (kept entry).1 inside⟩
  · rintro ⟨entry, listed, inside⟩
    exact ⟨write entry, ⟨entry, ⟨listed, List.ne_nil_of_mem inside⟩, rfl⟩, (kept entry).2 inside⟩

theorem mem_listToRegex (list : Text) : ch ∈ listToRegex true list ↔ ch ∈ list :=
  mem_list ends list (toRegex true) (mem_searching ends)

end Glob

namespace HostPattern

theorem mem_expandDot (segment : Text) : ch ∈ expandDot segment ↔ ch ∈ segment := by
  have star : ch ≠ '*' := ne_of_lineEnd ends (by decide)
  unfold expandDot
  split
  · simp only [List.mem_cons, star, false_or]
  · rfl

theorem mem_dropStar (glob : Text) : ch ∈ dropStar glob ↔ ch ∈ glob := by
  have star : ch ≠ '*' := ne_of_lineEnd ends (by decide)
  unfold dropStar
  split
  · next last =>
    obtain ⟨init, rfl⟩ := List.getLast?_eq_some_iff.1 last
    simp [star]
  · rfl

theorem mem_segmentToRegex (segment : Text) : ch ∈ segmentToRegex segment ↔ ch ∈ segment := by
  have star : ch ≠ '*' := ne_of_lineEnd ends (by decide)
  have dot : ch ≠ '.' := ne_of_lineEnd ends (by decide)
  have label : ch ∉ "(?:^|\\.)".toList := notMem_of_lineEnd ends (by decide)
  have finish : ch ∉ ['$'] := notMem_of_lineEnd ends (by decide)
  rw [← mem_expandDot ends segment]
  unfold segmentToRegex
  simp only
  split
  · next rest form =>
    rw [form, Glob.mem_searching ends]
    simp only [List.tail_cons, List.mem_cons, star, false_or]
  · next rest form =>
    have closing : ch ∉ if Glob.isOpen true rest.getLast? then [] else ['$'] := by split <;> simp_all
    rw [form, dropTail_body, List.mem_append, List.mem_append, Glob.mem_body ends, mem_dropStar ends]
    simp only [label, closing, List.mem_cons, star, dot, false_or, or_false]
  · exact Glob.mem_searching ends _

theorem mem_toRegex (list : Text) : ch ∈ toRegex list ↔ ch ∈ list :=
  Glob.mem_list ends list segmentToRegex (mem_segmentToRegex ends)

end HostPattern

theorem mem_quoteMeta (t : Text) : ch ∈ quoteMeta t ↔ ch ∈ t := by
  have escape : ch ≠ '\\' := ne_of_lineEnd ends (by decide)
  have each (c : Char) : ch ∈ (if isMeta c then ['\\', c] else [c]) ↔ ch = c := by
    split
    · simp only [List.mem_cons, escape, List.not_mem_nil, or_false, false_or]
    · exact List.mem_singleton
  simp only [quoteMeta, List.mem_flatMap, each, exists_eq_right']

namespace Bypass

theorem mem_urlSource (scheme : Option Text) (host port : Text) :
    ch ∈ urlSource scheme host port ↔ ch ∈ host ∨ ch ∈ port ∨ ∃ scheme' ∈ scheme, ch ∈ scheme' := by
  have start : ch ≠ '^' := ne_of_lineEnd ends (by decide)
  have any : ch ∉ "[^:]+".toList := notMem_of_lineEnd ends (by decide)
  have mark : ch ∉ "://".toList := notMem_of_lineEnd ends (by decide)
  have colon : ch ≠ ':' := ne_of_lineEnd ends (by decide)
  have slash : ch ∉ ['/'] := notMem_of_lineEnd ends (by decide)
  have named : ch ∈ (scheme.map quoteMeta).getD "[^:]+".toList ↔ ∃ scheme' ∈ scheme, ch ∈ scheme' := by
    cases scheme with
    | none => simpa using any
    | some scheme => simp [mem_quoteMeta ends]
  simp only [urlSource, List.mem_append, List.mem_cons, start, named, mark, Glob.mem_body ends, colon,
    mem_quoteMeta ends, slash, false_or, or_false]
  rw [or_assoc, or_comm, or_assoc]

theorem mem_hostGlob (host : Text) :
    (ch ∈ (hostGlob host).1 ↔ ch ∈ (hostGlob host).2) ∧ (ch ∈ (hostGlob host).2 → ch ∈ host) := by
  cases named : Ip.Network.addressOfText? host with
  | none =>
    rw [hostGlob_glob named]
    exact ⟨Iff.rfl, (HostPattern.mem_expandDot ends host).1⟩
  | some a =>
    have foreign : Ip.isAddressChar ch = false := by
      have all : ∀ c ∈ lineEnds, Ip.isAddressChar c = false := forall_mem_of_all (by decide)
      exact all ch ends
    have outside : ch ∉ a.toText := Ip.notMem_toText foreign a
    have outside' : ch ∉ bracketed a := by
      unfold bracketed
      split
      · exact outside
      · have opened : ch ≠ '[' := ne_of_lineEnd ends (by decide)
        have closed : ch ≠ ']' := ne_of_lineEnd ends (by decide)
        simp [outside, opened, closed]
    rw [hostGlob_address named]
    exact ⟨iff_of_false outside outside', fun member => absurd member outside'⟩

/-- The host of the entry or, next to a port, the port or the scheme has the character; an entry that is a network has
    no search for it to get into. -/
def Carries (ch : Char) (entry : Text) : Prop :=
  (Bypass.ofText entry).network = none ∧ (ch ∈ hostText entry ∨ ∃ port, (Bypass.ofText entry).port = some port ∧
    (ch ∈ port ∨ ∃ scheme, (Bypass.ofText entry).scheme = some scheme ∧ ch ∈ scheme))

/-- What scripts search for on behalf of an entry. -/
def tested (b : Bypass) : List Search :=
  match b.url, b.host with
  | some search, _ => [search]
  | none, .pattern search => [search]
  | none, _ => []

end Bypass

theorem mem_source_ofSource (source : Text) :
    ch ∈ (Search.ofSource source).source ↔ ch ∈ source ∧ (Search.ofSource source).isNever = false := by
  unfold Search.ofSource
  split
  · exact (and_iff_left rfl).symm
  · have never : ch ∉ Search.neverSource := notMem_of_lineEnd ends (by decide)
    simp [Search.source, Search.isNever, never]

theorem mem_source_of_accepted {source : Text} (accepted : Accepted source) :
    ch ∈ (Search.ofSource source).source ↔ ch ∈ source := by
  rw [mem_source_ofSource ends, and_iff_left accepted.compiled]

theorem Bypass.mem_tested (entry : Text) :
    (∃ search ∈ (Bypass.ofText entry).tested, ch ∈ search.source) ↔ Carries ch entry := by
  unfold Carries
  by_cases remote : entry = localText
  · have host : ch ∉ hostText localText := notMem_of_lineEnd ends (by decide)
    have ported : (Bypass.ofText localText).port = none := rfl
    have untested : (Bypass.ofText localText).tested = [] := rfl
    rw [remote, untested, ported]
    simp [host]
  · have host : hostText entry = (hostGlob (splitPort (splitScheme entry).2).1).2 := rfl
    rw [ofText_eq remote, host, Server.ofText]
    obtain ⟨scheme, server⟩ := splitScheme entry
    simp only
    -- a network is not searched for, a server with a port in the URL, and one without in the host
    split
    · simp [ofServer, tested]
    · obtain ⟨site, port⟩ := splitPort server
      cases port with
      | some port =>
        have searched := mem_source_of_accepted ends (accepted_urlSource scheme (hostGlob site).2 port)
        simp [ofServer, tested, searched, mem_urlSource ends]
      | none =>
        have searched := mem_source_of_accepted ends (accepted_of_reads (Glob.reads_toRegex true (hostGlob site).1))
        have written := (mem_hostGlob ends site).1
        by_cases star : (hostGlob site).1 = ['*']
        · have other : ch ≠ '*' := ne_of_lineEnd ends (by decide)
          simp [ofServer, tested, hostOfGlob, star, ← written, other]
        · simp [ofServer, tested, hostOfGlob, star, ← written, searched, Glob.mem_searching ends]

/-- What an entry carries is in it. -/
theorem Bypass.mem_of_carries {entry : Text} (carries : Carries ch entry) : ch ∈ entry := by
  obtain ⟨-, host | ⟨port, ported, inside⟩⟩ := carries
  · have within := (splitPort_subset (splitScheme entry).2).1 ((mem_hostGlob ends _).2 host)
    rw [eq_splitScheme entry]
    exact List.mem_append_right _ within
  · rw [eq_splitScheme entry]
    rcases inside with inside | ⟨scheme, named, inside⟩
    · exact List.mem_append_right _ ((splitPort_subset _).2 port (port_of_ofText ported) inside)
    · obtain ⟨_, parts⟩ := ofText_ported ported
      rw [parts] at named
      rw [show (splitScheme entry).1 = some scheme from named]
      exact List.mem_append_left _ (List.mem_append_left _ inside)

end

/-- What scripts search for on behalf of a condition. -/
def Analysis.tested : Analysis → List Search
  | .url search => [search]
  | .host search => [search]
  | .bypass entry => entry.tested
  | _ => []

namespace Condition

/-- The pattern of the condition has the character where it gets into the source of a search; a source that scripts
    would not accept is not searched for. -/
def Carries (ch : Char) : Condition → Prop
  | .urlRegex pattern => ch ∈ pattern ∧ (Search.ofSource pattern).isNever = false
  | .hostRegex pattern => ch ∈ pattern ∧ (Search.ofSource pattern).isNever = false
  | .urlWildcard pattern => ch ∈ pattern
  | .hostWildcard pattern => ch ∈ pattern
  | .bypass entry => Bypass.Carries ch entry
  | _ => False

section
variable {ch : Char} (ends : ch ∈ lineEnds)
include ends

/-- The sources of a condition have the characters that end a line where its pattern has them, and no others. -/
theorem carries_iff {c : Condition} {a : Analysis} (analyzed : c.analyze = .ok a) :
    (∃ search ∈ a.tested, ch ∈ search.source) ↔ c.Carries ch := by
  have only (search : Search) : (∃ search' ∈ [search], ch ∈ search'.source) ↔ ch ∈ search.source := by simp
  have none (never : ¬ c.Carries ch) : (∃ search ∈ ([] : List Search), ch ∈ search.source) ↔ c.Carries ch :=
    iff_of_false (by simp) never
  cases c with
  | urlRegex pattern =>
    cases analyzed
    exact (only _).trans (mem_source_ofSource ends pattern)
  | hostRegex pattern =>
    cases analyzed
    exact (only _).trans (mem_source_ofSource ends pattern)
  | urlWildcard pattern =>
    cases analyzed
    have accepted := accepted_listToRegex true pattern
    exact (only _).trans ((mem_source_of_accepted ends accepted).trans (Glob.mem_listToRegex ends pattern))
  | hostWildcard pattern =>
    cases analyzed
    have accepted := accepted_hostWildcard pattern
    exact (only _).trans ((mem_source_of_accepted ends accepted).trans (HostPattern.mem_toRegex ends pattern))
  | bypass entry =>
    cases analyzed
    exact Bypass.mem_tested ends entry
  | ip address length =>
    rw [analyze] at analyzed
    cases made : Ip.Network.ofFields address length with
    | error error =>
      rw [made] at analyzed
      cases analyzed
    | ok network =>
      rw [made] at analyzed
      cases analyzed
      exact none id
  | _ =>
    cases analyzed
    exact none id

theorem mem_of_carries_ofDetail {k : ConditionKind} {t : Text} (carries : (ofDetail k t).Carries ch) : ch ∈ t := by
  cases k with
  | urlRegex => exact carries.1
  | hostRegex => exact carries.1
  | urlWildcard => exact carries
  | hostWildcard => exact carries
  | bypass => exact Bypass.mem_of_carries ends carries
  | ip =>
    rw [ofDetail, ipOfText] at carries
    split at carries <;> cases carries
  | weekday =>
    rw [ofDetail, weekdayOfText] at carries
    split at carries <;> cases carries
  | _ => cases carries

/-- What a condition carries is in the text that it was read from. -/
theorem mem_of_carries {t : Text} {c : Condition} (read : ofText? t = some c) (carries : c.Carries ch) : ch ∈ t := by
  obtain ⟨k, _, rfl⟩ := Option.map_eq_some_iff.1 read
  exact trim_subset t (splitDetail_subset (trim t) (mem_of_carries_ofDetail ends carries))

end

end Condition

end ProxyRouting
