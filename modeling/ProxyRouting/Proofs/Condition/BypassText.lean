import ProxyRouting.Condition.Bypass
import ProxyRouting.Proofs.Condition.RangeText
import ProxyRouting.Proofs.Ip.Shape

/-!
The canonical spelling of a bypass entry that does not end in a colon is read as the entry it was made from
(`ofText_normalized_of_ported`). Only what follows the scheme is spelled anew, in one of a few ways (`Respelled`), each
of which keeps the scheme where it was and is read as the same network, host and port.
-/
namespace ProxyRouting
open Text Ip.Network

namespace Bypass

/-- A network is read from any name of its address, a slash and its length. -/
theorem networkOfText?_named {address : Text} {a : Ip.Address} (named : addressOfText? address = some a)
    (whole : '/' ∉ address) {length : Nat} (small : length < 256) :
    networkOfText? (address ++ '/' :: ofNat length) = of? a length := by
  have read : readBound? (ofNat length) = some (length : Int) :=
    readBound?_ofNat (Nat.le_trans (Nat.le_of_lt small) (by decide))
  have bounds : (0 : Int) ≤ length ∧ (length : Int) < 256 := by omega
  rw [networkOfText?, cut?_single whole]
  simp only [bind, Option.bind_some, named, read, if_pos bounds, Int.toNat_natCast]

theorem networkOfText?_toText (n : Ip.Network) : networkOfText? n.toText = some n :=
  (networkOfText?_named (Ip.addressOfText?_toText n.address) (Ip.notMem_toText (by decide) n.address)
    (Ip.length_lt_of_network n)).trans (Ip.of?_eq_some_iff.2 ⟨rfl, rfl⟩)

/-- A network has an address in front of its first slash. -/
theorem networkOfText?_none {server : Text}
    (nameless : ∀ address length, cut? ['/'] server = some (address, length) → addressOfText? address = none) :
    networkOfText? server = none := by
  unfold networkOfText?
  cases cut : cut? ['/'] server with
  | none => rfl
  | some found =>
    obtain ⟨address, length⟩ := found
    simp only [bind, Option.bind_some, nameless address length cut, Option.bind_none]

/-- No network begins with a text that no address begins with. -/
theorem networkOfText?_append_none {lead : Text} (whole : '/' ∉ lead)
    (nameless : ∀ t, addressOfText? (lead ++ t) = none) (t : Text) : networkOfText? (lead ++ t) = none := by
  refine networkOfText?_none fun address length cut => ?_
  rw [cut?_single_append whole] at cut
  obtain ⟨⟨before, after⟩, _, same⟩ := Option.map_eq_some_iff.1 cut
  cases same
  exact nameless before

theorem mem_bracketed {c : Char} {a : Ip.Address} (member : c ∈ bracketed a) :
    Ip.isAddressChar c = true ∨ c = '[' ∨ c = ']' := by
  unfold bracketed at member
  split at member
  · exact .inl (Ip.isAddressChar_toText a c member)
  · simp only [List.cons_append, List.mem_cons, List.mem_append, List.not_mem_nil, or_false] at member
    rcases member with opening | inside | closing
    · exact .inr (.inl opening)
    · exact .inl (Ip.isAddressChar_toText a c inside)
    · exact .inr (.inr closing)

theorem isBlank_bracketed {a : Ip.Address} : ∀ c ∈ bracketed a, isBlank c = false := by
  intro c member
  rcases mem_bracketed member with inside | rfl | rfl
  · exact Ip.isBlank_of_isAddressChar inside
  · decide
  · decide

theorem bracketed_ne_nil (a : Ip.Address) : bracketed a ≠ [] := by
  unfold bracketed
  split
  · exact Ip.toText_ne_nil a
  · exact List.cons_ne_nil _ _

theorem slash_notMem_bracketed (a : Ip.Address) : '/' ∉ bracketed a := by
  intro member
  rcases mem_bracketed member with inside | same | same
  · cases inside
  · cases same
  · cases same

theorem trimmed_bracketed (a : Ip.Address) : Trimmed (bracketed a) := trimmed_of_solid isBlank_bracketed

theorem bracketed_v6 (bits : BitVec 128) (t : Text) :
    bracketed (.v6 bits) ++ t = '[' :: ((Ip.Address.v6 bits).toText ++ ']' :: t) := by
  simp [bracketed, Ip.Address.isV4]

/-- An address is read from its spelling in a URL. -/
theorem addressOfText?_bracketed (a : Ip.Address) : addressOfText? (bracketed a) = some a := by
  cases a with
  | v4 bits => exact Ip.addressOfText?_toText (.v4 bits)
  | v6 bits => exact Ip.addressOfText?_brackets (.v6 bits)

theorem trimmed_bracketed_colon (a : Ip.Address) : Trimmed (bracketed a ++ [':']) :=
  trimmed_joined isBlank_bracketed (by decide) (List.forall_mem_nil _)

/-- An address with a port is no address: dotted groups end there, and nothing but a slash follows a bracket. -/
theorem addressOfText?_port (a : Ip.Address) (port : Text) : addressOfText? (bracketed a ++ ':' :: port) = none := by
  rw [List.append_cons]
  cases a with
  | v4 bits =>
    have unbracketed : '[' ∉ bracketed (.v4 bits) ++ [':'] := by
      have inside : '[' ∉ (Ip.Address.v4 bits).toText := Ip.notMem_toText (by decide) _
      simpa [bracketed, Ip.Address.isV4] using inside
    refine Ip.addressOfText?_append_none (trimmed_bracketed_colon _) (by simp)
      (fun head => unbracketed (List.mem_of_mem_head? head)) (by simp [slash_notMem_bracketed]) (fun t => ?_) port
    rw [List.append_assoc]
    exact Ip.ofText?_dotted_colon bits.isLt t
  | v6 bits =>
    rw [Option.eq_none_iff_forall_ne_some]
    intro b named
    obtain ⟨address, length, split, _⟩ := Ip.ofText?_of_addressOfText? named
    rw [trim_append_of_trimmed (trimmed_bracketed_colon _) (by simp), List.append_assoc, bracketed_v6] at split
    simp only [List.singleton_append, Ip.splitLength?, Ip.cut?_bracketed (Ip.ofText?_toText _)] at split
    cases split

/-- An address with a port is no network. -/
theorem networkOfText?_port (a : Ip.Address) (port : Text) : networkOfText? (bracketed a ++ ':' :: port) = none := by
  rw [List.append_cons]
  refine networkOfText?_append_none (by simp [slash_notMem_bracketed]) (fun t => ?_) port
  rw [← List.append_cons]
  exact addressOfText?_port a t

theorem networkOfText?_bracketed (a : Ip.Address) : networkOfText? (bracketed a) = none := by
  refine networkOfText?_none fun address length cut => ?_
  rw [cut?_none.2 (slash_notMem_bracketed a)] at cut
  cases cut

theorem networkOfText?_star (t : Text) : networkOfText? ('*' :: t) = none :=
  networkOfText?_append_none (by decide : '/' ∉ ['*']) Ip.addressOfText?_star t

theorem networkOfText?_dot (t : Text) : networkOfText? ('.' :: t) = none :=
  networkOfText?_append_none (by decide : '/' ∉ ['.']) Ip.addressOfText?_dot t

/-- What follows the scheme of an entry, as it is understood: a network, or a host by its glob and its canonical
    spelling, with its port. -/
inductive Server
  | network (n : Ip.Network)
  | site (glob spelling : Text) (port : Option Text)

namespace Server

/-- Reads what follows the scheme. -/
def ofText (server : Text) : Server :=
  match networkOfText? server with
  | some n => .network n
  | none =>
    let (host, port) := splitPort server
    .site (hostGlob host).1 (hostGlob host).2 port

/-- The canonical spelling. -/
def toText : Server → Text
  | .network n => n.toText
  | .site _ spelling port => spelling ++ (port.map (':' :: ·)).getD []

end Server

/-- A scheme with what separates it from the rest. -/
def schemeText (scheme : Option Text) : Text := (scheme.map (· ++ "://".toList)).getD []

/-- The entry of a scheme and what follows it. -/
def ofServer (scheme : Option Text) (server : Server) : Bypass :=
  match server with
  | .network n => ⟨scheme, some n, .any, none, none, schemeText scheme ++ server.toText⟩
  | .site _ spelling (some port) =>
    ⟨scheme, none, .any, some port, some (.ofSource (urlSource scheme spelling port)),
      schemeText scheme ++ server.toText⟩
  | .site glob _ none => ⟨scheme, none, hostOfGlob glob, none, none, schemeText scheme ++ server.toText⟩

/-- An entry is read as its scheme and what follows it. -/
theorem ofText_eq {entry : Text} (remote : entry ≠ localText) :
    Bypass.ofText entry = ofServer (splitScheme entry).1 (Server.ofText (splitScheme entry).2) := by
  rw [Bypass.ofText, if_neg remote]
  obtain ⟨scheme, server⟩ := splitScheme entry
  simp only [Server.ofText]
  cases networkOfText? server with
  | some n => rfl
  | none =>
    obtain ⟨host, port⟩ := splitPort server
    cases port with
    | some port => simp [ofServer, Server.toText, schemeText]
    | none => simp [ofServer, Server.toText, schemeText]

theorem normalized_ofServer (scheme : Option Text) (server : Server) :
    (ofServer scheme server).normalized = schemeText scheme ++ server.toText := by
  unfold ofServer
  split <;> rfl

/-! ## Spellings -/

/-- The entry ends in a colon that no port follows, and that is not the end of an address. -/
def endsInColon (entry : Text) : Bool :=
  let server := (splitScheme entry).2
  (networkOfText? server).isNone && (addressOfText? server).isNone && server.getLast? = some ':'

/-- How the canonical spelling can differ from what it was made from. -/
inductive Respelled : Text → Text → Prop
  /-- The address of a network is spelled anew, and its length is written as a number. -/
  | network {server : Text} {n : Ip.Network} (named : networkOfText? server = some n) : Respelled server n.toText
  /-- So is an address, which stands in brackets if it needs them. -/
  | address {server : Text} {a : Ip.Address} (foreign : networkOfText? server = none)
      (named : addressOfText? server = some a) : Respelled server (bracketed a)
  /-- With a port, only the address in front of it is. -/
  | port {server host port : Text} {a : Ip.Address} (foreign : networkOfText? server = none)
      (nameless : addressOfText? server = none) (cut : cutLast? ':' server = some (host, port)) (present : port ≠ [])
      (named : addressOfText? host = some a) : Respelled server (bracketed a ++ ':' :: port)
  /-- A leading dot is written out. -/
  | dot (t : Text) : Respelled ('.' :: t) ('*' :: '.' :: t)
  | same (server : Text) : Respelled server server

theorem splitPort_address {server : Text} {a : Ip.Address} (named : addressOfText? server = some a) :
    splitPort server = (server, none) := by
  rw [splitPort, named]

theorem splitPort_port {server host port : Text} (nameless : addressOfText? server = none)
    (cut : cutLast? ':' server = some (host, port)) (present : port ≠ []) : splitPort server = (host, some port) := by
  simp only [splitPort, nameless, cut, if_neg present]

theorem splitPort_alone {server : Text} (cut : cutLast? ':' server = none) : splitPort server = (server, none) := by
  rw [splitPort, cut]
  cases addressOfText? server <;> rfl

theorem hostGlob_address {host : Text} {a : Ip.Address} (named : addressOfText? host = some a) :
    hostGlob host = (a.toText, bracketed a) := by
  rw [hostGlob, named]

theorem hostGlob_glob {host : Text} (nameless : addressOfText? host = none) :
    hostGlob host = (HostPattern.expandDot host, HostPattern.expandDot host) := by
  rw [hostGlob, nameless]

/-- A host with whatever follows it, its leading dot written out. -/
theorem respelled_glob (host rest : Text) : Respelled (host ++ rest) (HostPattern.expandDot host ++ rest) := by
  unfold HostPattern.expandDot
  split
  · next dotted =>
    obtain ⟨t, rfl⟩ := List.head?_eq_some_iff.1 dotted
    exact .dot (t ++ rest)
  · exact .same (host ++ rest)

/-- What follows the scheme is spelled in one of these ways, unless a colon is dropped. -/
theorem respelled {entry : Text} (ported : endsInColon entry = false) :
    Respelled (splitScheme entry).2 (Server.ofText (splitScheme entry).2).toText := by
  unfold endsInColon at ported
  generalize (splitScheme entry).2 = server at ported ⊢
  cases network : networkOfText? server with
  | some n =>
    simp only [Server.ofText, network]
    exact .network network
  | none =>
    cases address : addressOfText? server with
    | some a =>
      have spelled : (Server.ofText server).toText = bracketed a := by
        simp [Server.ofText, network, splitPort_address address, hostGlob_address address, Server.toText]
      rw [spelled]
      exact .address network address
    | none =>
      cases cut : cutLast? ':' server with
      | none =>
        have spelled : (Server.ofText server).toText = HostPattern.expandDot server ++ [] := by
          simp [Server.ofText, network, splitPort_alone cut, hostGlob_glob address, Server.toText]
        have way := respelled_glob server []
        rwa [List.append_nil, ← spelled] at way
      | some found =>
        obtain ⟨host, port⟩ := found
        have present : port ≠ [] := by
          rintro rfl
          rw [cutLast?_eq cut] at ported network address
          simp [network, address] at ported
        have split := splitPort_port address cut present
        cases named : addressOfText? host with
        | some a =>
          have spelled : (Server.ofText server).toText = bracketed a ++ ':' :: port := by
            simp [Server.ofText, network, split, hostGlob_address named, Server.toText]
          rw [spelled]
          exact .port network address cut present named
        | none =>
          have spelled : (Server.ofText server).toText = HostPattern.expandDot host ++ ':' :: port := by
            simp [Server.ofText, network, split, hostGlob_glob named, Server.toText]
          rw [spelled, cutLast?_eq cut]
          exact respelled_glob host (':' :: port)

/-- A spelling is read as what it was made from. -/
theorem ofText_respelled {server spelling : Text} (way : Respelled server spelling) :
    Server.ofText spelling = Server.ofText server := by
  cases way with
  | network named => simp only [Server.ofText, named, networkOfText?_toText]
  | address foreign named =>
    simp only [Server.ofText, foreign, networkOfText?_bracketed, splitPort_address named,
      splitPort_address (addressOfText?_bracketed _), hostGlob_address named,
      hostGlob_address (addressOfText?_bracketed _)]
  | @port server host port a foreign nameless cut present named =>
    have again : cutLast? ':' (bracketed a ++ ':' :: port) = some (bracketed a, port) :=
      cutLast?_single (bracketed a) (notMem_of_cutLast? cut)
    simp only [Server.ofText, foreign, networkOfText?_port, splitPort_port nameless cut present,
      splitPort_port (addressOfText?_port a port) again present, hostGlob_address named,
      hostGlob_address (addressOfText?_bracketed a)]
  | dot t =>
    have written (host : Text) : hostGlob ('*' :: '.' :: host) = hostGlob ('.' :: host) := by
      rw [hostGlob_glob (Ip.addressOfText?_star ('.' :: host)), hostGlob_glob (Ip.addressOfText?_dot host)]
      rfl
    simp only [Server.ofText, networkOfText?_star, networkOfText?_dot, splitPort, Ip.addressOfText?_star,
      Ip.addressOfText?_dot, cutLast?]
    cases cutLast? ':' t with
    | none => exact congrArg (fun glob : Text × Text => Server.site glob.1 glob.2 none) (written t)
    | some found => simp only [written]
  | same => rfl

/-- No separator begins in a text without a slash that a colon follows. -/
theorem separator_of_append {front rest : Text} (whole : '/' ∉ front) (inside : [':', '/', '/'] <:+: front ++ ':' :: rest) :
    [':', '/', '/'] <:+: ':' :: rest := by
  induction front with
  | nil => exact inside
  | cons c front ih =>
    rcases List.infix_cons_iff.1 inside with here | later
    · obtain ⟨_, behind⟩ := List.cons_prefix_cons.1 here
      cases front with
      | nil => simp at behind
      | cons d front =>
        obtain ⟨rfl, _⟩ := List.cons_prefix_cons.1 behind
        simp at whole
    · exact ih (fun member => whole (List.mem_cons_of_mem c member)) later

/-- A spelling has no separator that what it was made from has not. -/
theorem separator_of_respelled {server spelling : Text} (way : Respelled server spelling)
    (inside : [':', '/', '/'] <:+: spelling) : [':', '/', '/'] <:+: server := by
  cases way with
  | @network _ n named =>
    -- a separator has two slashes, and a network one
    have slashes := inside.sublist.count_le '/'
    have digits : '/' ∉ ofNat n.length := notMem_ofNat (by decide) n.length
    have address : '/' ∉ n.address.toText := Ip.notMem_toText (by decide) n.address
    simp [Ip.Network.toText, List.count_eq_zero_of_not_mem digits, List.count_eq_zero_of_not_mem address] at slashes
  | @address _ a _ named => exact absurd (inside.subset (by decide)) (slash_notMem_bracketed a)
  | @port _ host port a foreign nameless cut present named =>
    have behind := separator_of_append (slash_notMem_bracketed a) inside
    rw [cutLast?_eq cut]
    exact behind.trans (List.suffix_append host _).isInfix
  | dot t =>
    rcases List.infix_cons_iff.1 inside with here | later
    · obtain ⟨same, _⟩ := List.cons_prefix_cons.1 here
      cases same
    · exact later
  | same => exact inside

theorem eq_splitScheme (entry : Text) : entry = schemeText (splitScheme entry).1 ++ (splitScheme entry).2 := by
  unfold splitScheme
  cases cut : cut? "://".toList entry with
  | some found => exact cut?_eq cut
  | none => rfl

/-- Either a scheme is cut off, or there is no separator in the entry. -/
theorem splitScheme_cases (entry : Text) :
    (∃ scheme server, splitScheme entry = (some scheme, server) ∧ cut? "://".toList entry = some (scheme, server)) ∨
      (splitScheme entry = (none, entry) ∧ ¬ [':', '/', '/'] <:+: entry) := by
  unfold splitScheme
  cases cut : cut? "://".toList entry with
  | some found => exact .inl ⟨found.1, found.2, rfl, rfl⟩
  | none => exact .inr ⟨rfl, cut?_eq_none.1 cut⟩

/-- The scheme stays where it was when what follows it is written anew without a separator. -/
theorem splitScheme_rewritten {entry t : Text}
    (absent : ¬ [':', '/', '/'] <:+: (splitScheme entry).2 → ¬ [':', '/', '/'] <:+: t) :
    splitScheme (schemeText (splitScheme entry).1 ++ t) = ((splitScheme entry).1, t) := by
  rcases splitScheme_cases entry with ⟨scheme, server, split, cut⟩ | ⟨split, whole⟩
  · have again : cut? "://".toList (schemeText (some scheme) ++ t) = some (scheme, t) := cut?_append cut t
    rw [split, splitScheme, again]
  · rw [split] at absent ⊢
    have again : cut? "://".toList (schemeText none ++ t) = none := cut?_eq_none.2 (absent whole)
    rw [splitScheme, again]
    rfl

/-- A spelling has the scheme of what it was made from. -/
theorem splitScheme_respelled {entry spelling : Text} (way : Respelled (splitScheme entry).2 spelling) :
    splitScheme (schemeText (splitScheme entry).1 ++ spelling) = ((splitScheme entry).1, spelling) :=
  splitScheme_rewritten fun absent inside => absent (separator_of_respelled way inside)

/-- No other entry is spelled like the one for the machine itself. -/
theorem respelled_ne_localText {entry spelling : Text} (remote : entry ≠ localText)
    (way : Respelled (splitScheme entry).2 spelling) : schemeText (splitScheme entry).1 ++ spelling ≠ localText := by
  intro same
  have foreign {c : Char} (other : c ∉ localText) : c ∉ schemeText (splitScheme entry).1 ++ spelling :=
    fun member => other (same ▸ member)
  have slash := foreign (by decide : '/' ∉ localText)
  have colon := foreign (by decide : ':' ∉ localText)
  have star := foreign (by decide : '*' ∉ localText)
  rcases splitScheme_cases entry with ⟨scheme, server, split, _⟩ | ⟨split, _⟩
  · simp [split, schemeText] at slash
  · rw [split] at way same slash colon star
    cases way with
    | network named => simp [schemeText, Ip.Network.toText] at slash
    | @address _ a _ _ =>
      have opening : '<' ∈ bracketed a := by
        rw [show bracketed a = localText from same]
        decide
      rcases mem_bracketed opening with other | other | other <;> cases other
    | port => simp [schemeText] at colon
    | dot t => simp [schemeText] at star
    | same => exact remote same

theorem ofText_normalized_of_ported {entry : Text} (ported : endsInColon entry = false) :
    Bypass.ofText (Bypass.ofText entry).normalized = Bypass.ofText entry := by
  by_cases remote : entry = localText
  · rw [remote]
    rfl
  · have way := respelled ported
    rw [ofText_eq remote, normalized_ofServer, ofText_eq (respelled_ne_localText remote way), splitScheme_respelled way,
      ofText_respelled way]

/-! ## White space -/

/-- What has white space at no end keeps none when all but its end is written anew. -/
theorem trimmed_rewritten {lead front front' tail : Text} (trimmed : Trimmed (lead ++ (front ++ tail)))
    (present : tail ≠ []) (begins : Stops isBlank front') (present' : front' ≠ []) :
    Trimmed (lead ++ (front' ++ tail)) := by
  constructor
  · cases lead with
    | nil => exact stops_append begins present' tail
    | cons c lead => exact trimmed.front
  · have back := trimmed.back
    rw [List.reverse_append, List.reverse_append, List.append_assoc] at back ⊢
    have present : tail.reverse ≠ [] := by simpa using present
    exact stops_append (stops_of_append back present) present _

theorem trimmed_behind {lead server t : Text} (trimmed : Trimmed (lead ++ server)) (solid : Trimmed t)
    (present : t ≠ []) : Trimmed (lead ++ t) := by
  constructor
  · cases lead with
    | nil => exact solid.front
    | cons c lead => exact trimmed.front
  · rw [List.reverse_append]
    exact stops_append solid.back (by simpa using present) _

/-- A spelling has white space at no end if what it was made from has none. -/
theorem trimmed_respelled {lead server spelling : Text} (way : Respelled server spelling)
    (trimmed : Trimmed (lead ++ server)) : Trimmed (lead ++ spelling) := by
  cases way with
  | @network _ n named => exact trimmed_behind trimmed (Ip.trimmed_networkText n) (by simp [Ip.Network.toText])
  | @address _ a _ named => exact trimmed_behind trimmed (trimmed_bracketed a) (bracketed_ne_nil a)
  | @port _ host port a _ _ cut present _ =>
    rw [cutLast?_eq cut, List.append_cons] at trimmed
    rw [List.append_cons]
    exact trimmed_rewritten trimmed present (stops_append (trimmed_bracketed a).front (bracketed_ne_nil a) _) (by simp)
  | dot t =>
    have begins : Stops isBlank ['*'] := stops_cons (by decide) []
    have rewritten := @trimmed_rewritten lead [] ['*'] ('.' :: t) trimmed (List.cons_ne_nil '.' t) begins
    exact rewritten (List.cons_ne_nil '*' [])
  | same => exact trimmed

theorem trimmed_normalized_of_ported {entry : Text} (ported : endsInColon entry = false) (trimmed : Trimmed entry) :
    Trimmed (Bypass.ofText entry).normalized := by
  by_cases remote : entry = localText
  · rw [remote] at trimmed ⊢
    exact trimmed
  · rw [ofText_eq remote, normalized_ofServer]
    rw [eq_splitScheme entry] at trimmed
    exact trimmed_respelled (respelled ported) trimmed

theorem newline_notMem_hostGlob {host : Text} (oneLine : '\n' ∉ host) : '\n' ∉ (hostGlob host).2 := by
  cases named : addressOfText? host with
  | some a =>
    rw [hostGlob_address named]
    intro member
    cases isBlank_bracketed _ member
  | none =>
    rw [hostGlob_glob named]
    unfold HostPattern.expandDot
    split
    · simpa using oneLine
    · exact oneLine

theorem splitPort_subset (server : Text) : (splitPort server).1 ⊆ server ∧ ∀ port ∈ (splitPort server).2, port ⊆ server := by
  unfold splitPort
  split
  · next host port _ cut =>
    rw [cutLast?_eq cut]
    refine ⟨List.subset_append_left _ _, ?_⟩
    split
    · simp
    · simp
  · simp

/-- The canonical spelling of an entry on one line is on one line. -/
theorem newline_notMem_normalized {entry : Text} (oneLine : '\n' ∉ entry) : '\n' ∉ (Bypass.ofText entry).normalized := by
  by_cases remote : entry = localText
  · rw [remote] at oneLine ⊢
    exact oneLine
  · rw [ofText_eq remote, normalized_ofServer]
    rw [eq_splitScheme entry] at oneLine
    obtain ⟨lead, server⟩ := not_or.1 (List.mem_append.not.1 oneLine)
    refine List.mem_append.not.2 (not_or.2 ⟨lead, ?_⟩)
    unfold Server.ofText
    split
    · next n _ =>
      have address : '\n' ∉ n.address.toText := Ip.notMem_toText (by decide) n.address
      simp [Server.toText, Ip.Network.toText, address, notMem_ofNat]
    · obtain ⟨front, back⟩ := splitPort_subset (splitScheme entry).2
      generalize splitPort (splitScheme entry).2 = pieces at front back ⊢
      obtain ⟨host, port⟩ := pieces
      refine List.mem_append.not.2 (not_or.2 ⟨newline_notMem_hostGlob fun member => server (front member), ?_⟩)
      cases port with
      | none => simp
      | some port =>
        have inside : '\n' ∉ port := fun member => server (back port rfl member)
        simpa using inside

end Bypass
end ProxyRouting
