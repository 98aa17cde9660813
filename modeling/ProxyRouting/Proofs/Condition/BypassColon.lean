import ProxyRouting.Condition.Analysis
import ProxyRouting.Proofs.Condition.BypassText
import ProxyRouting.Proofs.Condition.TextForm

/-!
The canonical spelling of a bypass entry leaves out a colon that no port follows. What stands in front of the colon may
be read as something else by itself, as the entry for the machine itself or as a host with a port; then the spelling is
read as another entry, and in all other cases as the entry it was made from (`ofText_normalized_iff`). So the text form
of a bypass condition stands for the condition, unless the entry loses such a colon or its spelling has white space at
an end, which reading trims (`bypass_spelling_stands`).
-/
namespace ProxyRouting
open Text Ip.Network

namespace Bypass

/-- The entry would be read as another one without the colon it ends in: as the entry for the machine itself, as a
    host with a port, or without white space in front of the colon. -/
def needsColon (entry : Text) : Bool :=
  let host := (splitScheme entry).2.dropLast
  endsInColon entry &&
    (entry = localText ++ [':'] || host.getLast?.any isBlank || (':' ∈ host && (addressOfText? host).isNone))

/-- The entry ends in a colon, and what is left without it is the entry for the machine itself or is taken for a host
    with a port. -/
def losesColon (entry : Text) : Bool :=
  let host := (splitScheme entry).2.dropLast
  endsInColon entry && (entry = localText ++ [':'] || (':' ∈ host && (addressOfText? host).isNone))

/-- What an entry that ends in a colon has in front of it. -/
structure Colon (entry host : Text) : Prop where
  split : (splitScheme entry).2 = host ++ [':']
  foreign : networkOfText? (host ++ [':']) = none
  nameless : addressOfText? (host ++ [':']) = none

/-- The colon can be left out. -/
structure Needless (entry host : Text) : Prop extends Colon entry host where
  remote : entry ≠ localText ++ [':']
  portless : addressOfText? host = none → ':' ∉ host

theorem exists_colon {entry : Text} (bare : endsInColon entry = true) : ∃ host, Colon entry host := by
  simp only [endsInColon, Bool.and_eq_true, Option.isNone_iff_eq_none, decide_eq_true_eq] at bare
  obtain ⟨⟨foreign, nameless⟩, last⟩ := bare
  obtain ⟨host, split⟩ := List.getLast?_eq_some_iff.1 last
  exact ⟨host, split, split ▸ foreign, split ▸ nameless⟩

theorem needless_of_colon {entry host : Text} (bare : endsInColon entry = true) (colon : Colon entry host)
    (kept : losesColon entry = false) : Needless entry host := by
  simp only [losesColon, bare, colon.split, List.dropLast_concat, Bool.true_and, Bool.or_eq_false_iff,
    Bool.and_eq_false_iff, decide_eq_false_iff_not, Option.isNone_eq_false_iff] at kept
  obtain ⟨remote, portless⟩ := kept
  refine ⟨colon, remote, fun named => ?_⟩
  rcases portless with portless | address
  · exact portless
  · rw [named] at address
    cases address

/-- An entry that needs its colon for nothing can do without it, and has no white space in front of it. -/
theorem kept_of_needsColon {entry : Text} (needless : needsColon entry = false) : losesColon entry = false := by
  unfold needsColon at needless
  unfold losesColon
  cases bare : endsInColon entry with
  | false => rfl
  | true =>
    simp only [bare, Bool.true_and, Bool.or_eq_false_iff] at needless ⊢
    exact ⟨needless.1.1, needless.2⟩

theorem solid_of_needsColon {entry host : Text} (bare : endsInColon entry = true) (colon : Colon entry host)
    (needless : needsColon entry = false) : ∀ c ∈ host.getLast?, isBlank c = false := by
  simp only [needsColon, bare, colon.split, List.dropLast_concat, Bool.true_and, Bool.or_eq_false_iff] at needless
  intro c last
  have solid := needless.1.2
  rw [Option.mem_def.1 last] at solid
  exact solid

/-- A colon behind a number does not belong to it. -/
theorem readBound?_colon (t : Text) : readBound? (t ++ [':']) = readBound? t := by
  have digits (u : Text) : (u ++ [':']).takeWhile Char.isDigit = u.takeWhile Char.isDigit := by
    induction u with
    | nil => rfl
    | cons c u ih => simp only [List.cons_append, List.takeWhile_cons, ih]
  have start : trimStart (t ++ [':']) = trimStart t ++ [':'] := by
    induction t with
    | nil => rfl
    | cons c t ih =>
      simp only [trimStart, List.cons_append, List.dropWhile_cons] at ih ⊢
      split
      · exact ih
      · rfl
  unfold readBound?
  rw [start]
  cases trimStart t with
  | nil => rfl
  | cons c u =>
    by_cases minus : c = '-'
    · subst minus
      simp only [List.cons_append, digits]
    · by_cases plus : c = '+'
      · subst plus
        simp only [List.cons_append, digits]
      · have unsigned := digits (c :: u)
        simp only [List.cons_append] at unsigned
        simp [minus, plus, unsigned]

theorem networkOfText?_colon (server : Text) : networkOfText? (server ++ [':']) = networkOfText? server := by
  cases cut : cut? ['/'] server with
  | none =>
    have absent : '/' ∉ server ++ [':'] := by simpa using cut?_none.1 cut
    simp only [networkOfText?, cut, cut?_none.2 absent]
  | some found =>
    obtain ⟨address, length⟩ := found
    have again : cut? ['/'] (server ++ [':']) = some (address, length ++ [':']) := by
      rw [cut?_eq cut]
      simpa using cut?_single (notMem_of_cut? cut) (length ++ [':'])
    simp only [networkOfText?, cut, again, bind, Option.bind_some, readBound?_colon]

theorem solid_schemeText (scheme : Option Text) : ∀ c ∈ (schemeText scheme).getLast?, isBlank c = false := by
  intro c last
  cases scheme with
  | none => cases last
  | some scheme =>
    have slash : (schemeText (some scheme)).getLast? = some '/' := by simp [schemeText]
    rw [slash] at last
    cases last
    decide

namespace Colon
variable {entry host : Text} (colon : Colon entry host)
include colon

theorem entry_eq : entry = schemeText (splitScheme entry).1 ++ host ++ [':'] := by
  rw [List.append_assoc, ← colon.split]
  exact eq_splitScheme entry

theorem ne_localText : entry ≠ localText := by
  intro same
  have inside : ':' ∈ localText := by
    rw [← same, colon.entry_eq]
    simp
  exact absurd inside (by decide)

theorem foreign_host : networkOfText? host = none := by
  rw [← networkOfText?_colon]
  exact colon.foreign

/-- What stands in front of the colon is the host, and there is no port. -/
theorem server_eq : Server.ofText (host ++ [':']) = .site (hostGlob host).1 (hostGlob host).2 none := by
  have cut : cutLast? ':' (host ++ [':']) = some (host, []) := cutLast?_single host List.not_mem_nil
  have bare : splitPort (host ++ [':']) = (host, none) := by simp [splitPort, colon.nameless, cut]
  simp only [Server.ofText, colon.foreign, bare]

theorem ofText_eq :
    Bypass.ofText entry = ofServer (splitScheme entry).1 (.site (hostGlob host).1 (hostGlob host).2 none) := by
  rw [Bypass.ofText_eq colon.ne_localText, colon.split, colon.server_eq]

end Colon

namespace Needless
variable {entry host : Text} (needless : Needless entry host)
include needless

theorem splitScheme_eq : splitScheme (schemeText (splitScheme entry).1 ++ host) = ((splitScheme entry).1, host) := by
  refine splitScheme_rewritten fun absent inside => absent ?_
  rw [needless.split]
  exact inside.trans (List.prefix_append host _).isInfix

theorem ported : endsInColon (schemeText (splitScheme entry).1 ++ host) = false := by
  unfold endsInColon
  rw [needless.splitScheme_eq]
  cases named : addressOfText? host with
  | some a => simp [named]
  | none =>
    have ends : host.getLast? ≠ some ':' := fun last => needless.portless named (List.mem_of_getLast? last)
    simp [ends]

theorem trimmed (solid : ∀ c ∈ host.getLast?, isBlank c = false) (whole : Trimmed entry) :
    Trimmed (schemeText (splitScheme entry).1 ++ host) := by
  rw [needless.entry_eq] at whole
  constructor
  · by_cases empty : schemeText (splitScheme entry).1 ++ host = []
    · rw [empty]
      exact stops_nil _
    · exact stops_of_append whole.front empty
  · intro c last
    rw [List.head?_reverse, List.getLast?_append] at last
    cases ends : host.getLast? with
    | some d =>
      rw [ends] at last
      exact solid c (ends.trans last)
    | none =>
      rw [ends] at last
      exact solid_schemeText _ c last

/-- The entry is read alike without the colon. -/
theorem ofText_dropped : Bypass.ofText (schemeText (splitScheme entry).1 ++ host) = Bypass.ofText entry := by
  have remote : schemeText (splitScheme entry).1 ++ host ≠ localText := by
    intro same
    refine needless.remote ?_
    rw [← same]
    exact needless.entry_eq
  have alone : splitPort host = (host, none) := by
    cases named : addressOfText? host with
    | some a => exact splitPort_address named
    | none => exact splitPort_alone (cutLast?_none.2 (needless.portless named))
  have server : Server.ofText host = .site (hostGlob host).1 (hostGlob host).2 none := by
    simp only [Server.ofText, needless.foreign_host, alone]
  rw [Bypass.ofText_eq remote, needless.splitScheme_eq, server, needless.ofText_eq]

end Needless

/-- Reading the canonical spelling gives the same entry. -/
theorem ofText_normalized {entry : Text} (kept : losesColon entry = false) :
    Bypass.ofText (Bypass.ofText entry).normalized = Bypass.ofText entry := by
  cases bare : endsInColon entry with
  | false => exact ofText_normalized_of_ported bare
  | true =>
    obtain ⟨host, colon⟩ := exists_colon bare
    have needless := needless_of_colon bare colon kept
    rw [← needless.ofText_dropped]
    exact ofText_normalized_of_ported needless.ported

theorem trimmed_normalized {entry : Text} (needed : needsColon entry = false) (trimmed : Trimmed entry) :
    Trimmed (Bypass.ofText entry).normalized := by
  cases bare : endsInColon entry with
  | false => exact trimmed_normalized_of_ported bare trimmed
  | true =>
    obtain ⟨host, colon⟩ := exists_colon bare
    have needless := needless_of_colon bare colon (kept_of_needsColon needed)
    rw [← needless.ofText_dropped]
    exact trimmed_normalized_of_ported needless.ported (needless.trimmed (solid_of_needsColon bare colon needed) trimmed)

/-! ## Colons that are missed -/

/-- No spelling of a host is the glob that ends in a colon behind that host. -/
theorem spelling_ne_colon (host : Text) : (hostGlob host).2 ≠ HostPattern.expandDot (host ++ [':']) := by
  cases named : addressOfText? host with
  | some a =>
    rw [hostGlob_address named]
    intro same
    have ends : (bracketed a).getLast? = some ':' := by
      rw [show bracketed a = _ from same]
      unfold HostPattern.expandDot
      split
      · rw [← List.cons_append, List.getLast?_concat]
      · rw [List.getLast?_concat]
    cases a with
    | v4 bits =>
      have inside : ':' ∈ Ip.dottedText bits.toNat := List.mem_of_getLast? ends
      simp [Ip.dottedText_eq, notMem_ofNat] at inside
    | v6 bits =>
      have closed : (bracketed (.v6 bits)).getLast? = some ']' := by
        rw [← List.append_nil (bracketed (.v6 bits)), bracketed_v6, ← List.cons_append, List.getLast?_concat]
      rw [closed] at ends
      cases ends
  | none =>
    rw [hostGlob_glob named]
    intro same
    have lengths := congrArg List.length same
    cases host with
    | nil => cases lengths
    | cons c host =>
      by_cases dotted : c = '.'
      · simp [HostPattern.expandDot, dotted] at lengths
      · simp [HostPattern.expandDot, dotted] at lengths

theorem mem_expandDot_of_mem {c : Char} {host : Text} (inside : c ∈ host) : c ∈ HostPattern.expandDot host := by
  unfold HostPattern.expandDot
  split
  · exact List.mem_cons_of_mem _ inside
  · exact inside

/-- The canonical spelling is read as the host alone is, without the colon behind it. -/
theorem Colon.ofText_normalized {entry host : Text} (colon : Colon entry host) (nameless : addressOfText? host = none)
    (inside : ':' ∈ host) :
    Bypass.ofText (Bypass.ofText entry).normalized = ofServer (splitScheme entry).1 (Server.ofText host) := by
  have way := respelled_glob host []
  rw [List.append_nil, List.append_nil] at way
  have normalized : (Bypass.ofText entry).normalized = schemeText (splitScheme entry).1 ++ HostPattern.expandDot host := by
    rw [colon.ofText_eq, normalized_ofServer, hostGlob_glob nameless]
    simp [Server.toText]
  have split : splitScheme (schemeText (splitScheme entry).1 ++ HostPattern.expandDot host) =
      ((splitScheme entry).1, HostPattern.expandDot host) := by
    refine splitScheme_rewritten fun absent again => absent ?_
    rw [colon.split]
    exact (separator_of_respelled way again).trans (List.prefix_append host _).isInfix
  have remote : schemeText (splitScheme entry).1 ++ HostPattern.expandDot host ≠ localText := by
    intro same
    have left : ':' ∈ localText := by
      rw [← same]
      exact List.mem_append_right _ (mem_expandDot_of_mem inside)
    exact absurd left (by decide)
  rw [normalized, Bypass.ofText_eq remote, split, ofText_respelled way]

/-- Without the colon at its end, what is left behind the last colon is a port. -/
theorem Colon.ofText_normalized_ne {entry host : Text} (colon : Colon entry host) (nameless : addressOfText? host = none)
    (inside : ':' ∈ host) : Bypass.ofText (Bypass.ofText entry).normalized ≠ Bypass.ofText entry := by
  rw [colon.ofText_normalized nameless inside, colon.ofText_eq]
  cases cut : cutLast? ':' host with
  | none => exact absurd inside (cutLast?_none.1 cut)
  | some found =>
    obtain ⟨front, port⟩ := found
    by_cases empty : port = []
    · have ports : splitPort host = (front, none) := by simp [splitPort, nameless, cut, empty]
      have whole : host = front ++ [':'] := by rw [cutLast?_eq cut, empty]
      intro same
      have texts := congrArg Bypass.normalized same
      simp only [normalized_ofServer, Server.ofText, colon.foreign_host, ports, hostGlob_glob nameless, Server.toText] at texts
      rw [whole] at texts
      simp only [Option.map_none, Option.getD_none, List.append_nil] at texts
      exact spelling_ne_colon front (List.append_cancel_left texts)
    · have ports : splitPort host = (front, some port) := splitPort_port nameless cut empty
      intro same
      have missing := congrArg Bypass.port same
      simp only [Server.ofText, colon.foreign_host, ports, ofServer] at missing
      cases missing

/-- The entry for the machine itself is not what it is with a colon. -/
theorem ofText_normalized_localText :
    Bypass.ofText (Bypass.ofText (localText ++ [':'])).normalized ≠ Bypass.ofText (localText ++ [':']) := by
  intro same
  have hosts := congrArg Bypass.host same
  cases hosts

/-- The canonical spelling of an entry is read as the entry just if it misses no colon. -/
theorem ofText_normalized_iff {entry : Text} :
    Bypass.ofText (Bypass.ofText entry).normalized = Bypass.ofText entry ↔ losesColon entry = false := by
  constructor
  · intro same
    rw [← Bool.not_eq_true]
    intro loses
    have bare : endsInColon entry = true := by
      unfold losesColon at loses
      exact (Bool.and_eq_true_iff.1 loses).1
    obtain ⟨host, colon⟩ := exists_colon bare
    simp only [losesColon, bare, colon.split, List.dropLast_concat, Bool.true_and, Bool.or_eq_true, Bool.and_eq_true,
      decide_eq_true_eq, Option.isNone_iff_eq_none] at loses
    rcases loses with rfl | ⟨inside, nameless⟩
    · exact ofText_normalized_localText same
    · exact colon.ofText_normalized_ne nameless inside same
  · exact ofText_normalized

end Bypass

namespace Condition

/-- The text form of a bypass condition is read as the entry that stands behind the colon, trimmed. -/
theorem ofText?_bypass (entry : Text) (abbreviation : Option Int) :
    ofText? (toTextAs (.bypass entry) abbreviation) = some (.bypass (trim (detail (.bypass entry)))) :=
  ofText?_spelled (ConditionKind.word_mem .bypass abbreviation) _

/-- What the text form says of an entry that loses no colon is read as the entry. -/
theorem ofText_detail {entry : Text} (kept : Bypass.losesColon entry = false) :
    Bypass.ofText (detail (.bypass entry)) = Bypass.ofText entry := by
  rw [detail]
  split
  · rfl
  · exact Bypass.ofText_normalized kept

/-- Taking the canonical spelling apart gives all that taking the entry apart gives, the spelling itself included,
    exactly if the entry loses no colon. Then the text form says what the entry says, and is read as a condition of the
    same analysis if no white space stands at an end of what it says. -/
theorem bypass_spelling_stands (entry : Text) :
    (Bypass.ofText (Bypass.ofText entry).normalized = Bypass.ofText entry ↔ Bypass.losesColon entry = false) ∧
      (Bypass.losesColon entry = false →
        Bypass.ofText (detail (.bypass entry)) = Bypass.ofText entry ∧
          (Trimmed (detail (.bypass entry)) → ∀ abbreviation,
            ∃ c, ofText? (toTextAs (.bypass entry) abbreviation) = some c ∧ c.analyze = analyze (.bypass entry))) := by
  refine ⟨Bypass.ofText_normalized_iff, fun kept => ?_⟩
  have same := ofText_detail kept
  refine ⟨same, fun trimmed abbreviation => ⟨_, ofText?_bypass entry abbreviation, ?_⟩⟩
  rw [trim_of_trimmed trimmed, analyze, analyze, same]

/-- An address that ends in a colon, which is left out. -/
theorem bypass_spelling_stands_address :
    Bypass.losesColon "http://0::1:".toList = false ∧ detail (.bypass "http://0::1:".toList) = "http://[::1]".toList ∧
      Bypass.ofText "http://[::1]".toList = Bypass.ofText "http://0::1:".toList ∧
      ∃ c, ofText? (toTextAs (.bypass "http://0::1:".toList) none) = some c ∧
        c.analyze = analyze (.bypass "http://0::1:".toList) := by
  have kept : Bypass.losesColon "http://0::1:".toList = false := by decide +kernel
  have spelled : detail (.bypass "http://0::1:".toList) = "http://[::1]".toList := by decide +kernel
  have trimmed : Trimmed (detail (.bypass "http://0::1:".toList)) := by
    rw [spelled]
    exact trimmed_of_solid (forall_mem_of_all (by decide))
  obtain ⟨_, stands⟩ := bypass_spelling_stands "http://0::1:".toList
  obtain ⟨same, read⟩ := stands kept
  rw [spelled] at same
  exact ⟨kept, spelled, same, read trimmed none⟩

/-- Not every canonical spelling is read as the entry: without its colon, this one is the machine itself. -/
theorem bypass_spelling_strays :
    ¬ ∀ entry : Text, Bypass.ofText (Bypass.ofText entry).normalized = Bypass.ofText entry :=
  fun fixed => Bypass.ofText_normalized_localText (fixed _)

/-- Nor is every text form: white space at the end of an entry is trimmed when it is read. -/
example : ofText? (toText (.bypass "a ".toList)) = some (.bypass ['a']) := by decide +kernel

end Condition
end ProxyRouting
