import ProxyRouting.Proofs.Text.Slice
import ProxyRouting.Proofs.Url.Parts
import ProxyRouting.Url.Offsets

/-!
The offsets of the parts of a URL. Searches in slices of the URL find what cuts around its separators find, and each
slice that is taken on the way exists (`hostRange_eq`, `request_eq`), since an offset is the length of what precedes
a place. So the offsets of the host lie between those of the authority, and all of them on boundaries of characters
(`offsets_nest`).
-/
namespace ProxyRouting.Url
open Text

/-- The scheme is what stands before the first colon, if something does and two slashes follow. -/
theorem scheme?_cut {url before after : Text} (cut : cut? [':'] url = some (before, after)) :
    scheme? url = if before = [] then none else (dropLead? "//".toList after).map (before, ·) := by
  unfold scheme?
  rw [cut]
  split
  · next same =>
    cases same
    rfl
  · next present same =>
    cases same
    rw [if_neg present]
    rfl
  · next other other' =>
    by_cases empty : before = []
    · rw [if_pos empty]
    · rw [if_neg empty]
      cases slashes : dropLead? "//".toList after with
      | none => rfl
      | some rest => exact absurd (by rw [dropLead?_eq_some.1 slashes]; rfl) (other' before rest)

theorem schemeEnd_eq (url : Text) : Sliced.schemeEnd url = .ok (schemeEnd? url) := by
  unfold Sliced.schemeEnd schemeEnd?
  rw [findOffset?_cut]
  cases cut : cut? [':'] url with
  | none =>
    have absent : scheme? url = none := by
      unfold scheme?
      rw [cut]
    rw [absent]
    rfl
  | some parts =>
    obtain ⟨before, after⟩ := parts
    rw [scheme?_cut cut]
    by_cases empty : before = []
    · subst empty
      rfl
    · have present : byteLength before ≠ 0 := mt byteLength_eq_zero.1 empty
      have behind : sliceFrom url (byteLength before + 1) = .ok after :=
        sliceFrom_eq (cut?_eq cut) (byteLength_append before [':'])
      simp only [Option.map_some, bind, Except.bind, present, ↓reduceIte, behind, empty]
      cases dropLead? "//".toList after with
      | none => rfl
      | some rest => rfl

theorem scheme_eq (url : Text) : Sliced.scheme url = .ok ((scheme? url).map Prod.fst) := by
  unfold Sliced.scheme
  rw [schemeEnd_eq, schemeEnd?]
  cases found : scheme? url with
  | none => rfl
  | some parts =>
    obtain ⟨scheme, behind⟩ := parts
    obtain ⟨whole, -, -⟩ := scheme?_iff.1 found
    have front : slice url 0 (byteLength scheme) = .ok scheme :=
      slice_eq_ok_iff.2 ⟨[], "://".toList ++ behind, by simpa using whole, rfl, rfl⟩
    have enough : ¬ byteLength scheme + 3 < 3 := by omega
    simp only [Option.map_some, bind, Except.bind, enough, ↓reduceIte, Nat.add_sub_cancel, front]
    rfl

theorem byteLength_lead (scheme : Text) : byteLength (scheme ++ "://".toList) = byteLength scheme + 3 :=
  byteLength_append ..

/-- A search from an offset on ends at what it finds, or else at the end. -/
theorem stop_eq (kind : Char → Bool) (t : Text) (start : Nat) :
    (findOffset? kind t).elim (start + byteLength t) (start + ·) = start + byteLength (t.takeWhile (!kind ·)) := by
  rw [← byteLength_takeWhile]
  cases findOffset? kind t <;> rfl

theorem authority_eq (url : Text) : Sliced.authority url = .ok (authorityOffsets? url) := by
  unfold Sliced.authority authorityOffsets? split?
  rw [schemeEnd_eq, schemeEnd?]
  cases found : scheme? url with
  | none => rfl
  | some parts =>
    obtain ⟨scheme, behind⟩ := parts
    obtain ⟨whole, -, -⟩ := scheme?_iff.1 found
    have last : byteLength url = byteLength scheme + 3 + byteLength behind := by
      rw [whole, byteLength_append, byteLength_lead]
    simp only [Option.map_some, bind, Except.bind, sliceFrom_eq whole (byteLength_lead scheme), last, stop_eq]
    rfl

/-- The host begins behind the last sign of an authority, if there is one. -/
theorem start_eq (t : Text) (start : Nat) :
    (findLastOffset? (· == '@') t).elim start (start + · + 1) = start + byteLength (splitUser t).1 := by
  rw [findLastOffset?_cut, splitUser]
  cases cutLast? '@' t with
  | none => rfl
  | some cut =>
    have last : byteLength (cut.1 ++ ['@']) = byteLength cut.1 + 1 := byteLength_append ..
    simp only [Option.map_some, Option.elim_some, last, Nat.add_assoc]

/-- A part of a URL is the slice between the lengths of what precedes it and of what it ends. -/
theorem slice_eq {url front inside back : Text} (whole : url = front ++ (inside ++ back)) :
    slice url (byteLength front) (byteLength front + byteLength inside) = .ok inside :=
  slice_eq_ok_iff.2 ⟨front, back, by rw [whole, List.append_assoc], rfl, byteLength_append ..⟩

section
variable {url : Text} {s : Split} {a : Authority}

theorem text_of_parts (cut : split? url = some s) (around : Authority.of? s.authority = some a) :
    url = s.scheme ++ "://".toList ++ (a.before ++ (a.host ++ (a.after ++ s.rest))) := by
  obtain ⟨whole, -⟩ := split?_iff.1 cut
  obtain ⟨inside, -⟩ := Authority.of?_iff.1 around
  rw [whole, Split.text, inside, Authority.text]
  simp only [List.append_assoc]

theorem slice_authority (cut : split? url = some s) :
    slice url (byteLength s.scheme + 3) (byteLength s.scheme + 3 + byteLength s.authority) = .ok s.authority := by
  obtain ⟨whole, -⟩ := split?_iff.1 cut
  have slice := slice_eq whole
  rwa [byteLength_lead] at slice

theorem slice_before (cut : split? url = some s) (around : Authority.of? s.authority = some a) :
    slice url (byteLength s.scheme + 3) (byteLength s.scheme + 3 + byteLength a.before) = .ok a.before := by
  have slice := slice_eq (text_of_parts cut around)
  rwa [byteLength_lead] at slice

theorem slice_host (cut : split? url = some s) (around : Authority.of? s.authority = some a) :
    slice url (byteLength s.scheme + 3 + byteLength a.before)
      (byteLength s.scheme + 3 + byteLength a.before + byteLength a.host) = .ok a.host := by
  have place : url = s.scheme ++ "://".toList ++ a.before ++ (a.host ++ (a.after ++ s.rest)) := by
    rw [text_of_parts cut around, ← List.append_assoc]
  have slice := slice_eq place
  rwa [byteLength_append, byteLength_lead] at slice

theorem authority_stop (around : Authority.of? s.authority = some a) : byteLength s.scheme + 3 + byteLength s.authority =
    byteLength s.scheme + 3 + byteLength a.before + byteLength a.host + byteLength a.after := by
  obtain ⟨inside, -⟩ := Authority.of?_iff.1 around
  rw [inside, Authority.text, byteLength_append, byteLength_append]
  omega

theorem slice_after (cut : split? url = some s) (around : Authority.of? s.authority = some a) :
    slice url (byteLength s.scheme + 3 + byteLength a.before + byteLength a.host)
      (byteLength s.scheme + 3 + byteLength s.authority) = .ok a.after := by
  have place : url = s.scheme ++ "://".toList ++ a.before ++ a.host ++ (a.after ++ s.rest) := by
    simpa using text_of_parts cut around
  have slice := slice_eq place
  rwa [byteLength_append, byteLength_append, byteLength_lead, ← authority_stop around] at slice

theorem sliceFrom_rest (cut : split? url = some s) :
    sliceFrom url (byteLength s.scheme + 3 + byteLength s.authority) = .ok s.rest := by
  obtain ⟨whole, -⟩ := split?_iff.1 cut
  have place : url = s.scheme ++ "://".toList ++ s.authority ++ s.rest := by rw [whole, Split.text, ← List.append_assoc]
  exact sliceFrom_eq place (by rw [byteLength_append, byteLength_lead])

end

/-- An opened bracket must be closed. -/
theorem of?_open {authority user rest : Text} (split : splitUser authority = (user, '[' :: rest)) :
    Authority.of? authority = (cut? [']'] rest).map fun (host, after) => ⟨user ++ ['['], host, ']' :: after⟩ := by
  simp only [Authority.of?, split]

/-- A host without brackets goes up to the first colon. -/
theorem of?_plain {authority user rest : Text} (split : splitUser authority = (user, rest))
    (plain : ∀ inner, rest ≠ '[' :: inner) :
    Authority.of? authority = some ⟨user, rest.takeWhile (· ≠ ':'), rest.dropWhile (· ≠ ':')⟩ := by
  unfold Authority.of?
  rw [split]
  split
  · next inner same => exact absurd (Prod.mk.inj same).2 (plain inner)
  · next same =>
    obtain ⟨rfl, rfl⟩ := Prod.mk.inj same
    rfl

theorem hostRange_eq (url : Text) : Sliced.hostRange url = .ok (hostOffsets? url) := by
  unfold Sliced.hostRange hostOffsets?
  rw [authority_eq, authorityOffsets?]
  cases found : split? url with
  | none => rfl
  | some s =>
    obtain ⟨whole, -⟩ := split?_iff.1 found
    have inside := slice_authority found
    obtain ⟨user, rest, split⟩ : ∃ user rest, splitUser s.authority = (user, rest) := ⟨_, _, rfl⟩
    obtain ⟨parts, -, -⟩ := splitUser_iff.1 split
    have last : byteLength s.scheme + 3 + byteLength s.authority =
        byteLength s.scheme + 3 + byteLength user + byteLength rest := by
      rw [parts, byteLength_append, ← Nat.add_assoc]
    rw [last] at inside
    have behind : slice url (byteLength s.scheme + 3 + byteLength user)
        (byteLength s.scheme + 3 + byteLength user + byteLength rest) = .ok rest := by
      have place : url = s.scheme ++ "://".toList ++ user ++ (rest ++ s.rest) := by
        rw [whole, Split.text, parts]
        simp
      have slice := slice_eq place
      rwa [byteLength_append, byteLength_lead] at slice
    simp only [Option.map_some, bind, Except.bind, inside, start_eq, Option.bind_some, split, last, behind]
    -- behind an opened bracket offsets are one more than in what follows the user information
    split
    · next inner =>
      have bracket : byteLength (user ++ ['[']) = byteLength user + 1 := byteLength_append ..
      rw [findOffset?_cut, of?_open split]
      cases cut? [']'] inner with
      | none => rfl
      | some cut =>
        simp only [Option.map_some, bracket, Nat.add_assoc]
        rfl
    · next plain =>
      have run : (rest.takeWhile fun c => !c == ':') = rest.takeWhile (· ≠ ':') := by
        congr 1
        funext c
        by_cases colon : c = ':' <;> simp [colon]
      rw [of?_plain split plain, stop_eq, run]
      rfl

theorem host_eq (url : Text) : Sliced.host url = .ok (host? url) := by
  unfold Sliced.host host?
  rw [hostRange_eq, hostOffsets?]
  cases cut : split? url with
  | none => rfl
  | some s =>
    cases around : Authority.of? s.authority with
    | none =>
      simp only [Option.bind_some, around]
      rfl
    | some a =>
      simp only [Option.bind_some, around, Option.map_some, bind, Except.bind, slice_host cut around]
      rfl

theorem split?_scheme (url : Text) : (scheme? url).map Prod.fst = (split? url).map Split.scheme := by
  unfold split?
  cases scheme? url <;> rfl

/-- The host has as many bytes as lie between its ends. -/
theorem range_empty_iff {start : Nat} {host : Text} : start = start + byteLength host ↔ host = [] := by
  rw [← byteLength_eq_zero]
  omega

theorem request_eq (url : Text) : Sliced.request url = .ok (Request.ofUrl? url) := by
  unfold Sliced.request Request.ofUrl?
  simp only [scheme_eq, hostRange_eq, authority_eq, hostOffsets?, authorityOffsets?, split?_scheme]
  cases cut : split? (trim url) with
  | none => rfl
  | some s =>
    cases around : Authority.of? s.authority with
    | none =>
      simp only [Option.bind_some, around, Option.map_some, Option.map_none, bind, Except.bind]
      rfl
    | some a =>
      simp only [Option.bind_some, around, Option.map_some, bind, Except.bind, range_empty_iff, slice_host cut around,
        slice_before cut around, slice_after cut around, sliceFrom_rest cut]
      split <;> rfl

/-- The offsets of an authority: from the end of the scheme, in the text, and around a text in which no authority
    ends. -/
structure AuthorityPlace (url : Text) (start stop : Nat) : Prop where
  schemeEnd : schemeEnd? url = some start
  ordered : start ≤ stop
  within : stop ≤ byteLength url
  start_boundary : IsBoundary url start
  stop_boundary : IsBoundary url stop
  unended : ∃ inside, slice url start stop = .ok inside ∧ ∀ c ∈ inside, c ∉ "/?#".toList

/-- The offsets of a host are inside of those of an authority. -/
structure HostPlace (url : Text) (first last start stop : Nat) : Prop where
  behind : first ≤ start
  ordered : start ≤ stop
  before : stop ≤ last
  start_boundary : IsBoundary url start
  stop_boundary : IsBoundary url stop

theorem isBoundary_of_slice {t inside : Text} {start stop : Nat} (found : slice t start stop = .ok inside) :
    IsBoundary t start ∧ IsBoundary t stop := by
  obtain ⟨front, back, rfl, rfl, rfl⟩ := slice_eq_ok_iff.1 found
  refine ⟨?_, isBoundary_append ..⟩
  rw [List.append_assoc]
  exact isBoundary_append ..

theorem endsAuthority_iff {c : Char} : endsAuthority c = true ↔ c ∈ "/?#".toList := by simp [endsAuthority, or_assoc]

theorem authorityPlace {url : Text} {start stop : Nat} (found : authorityOffsets? url = some (start, stop)) :
    AuthorityPlace url start stop := by
  obtain ⟨s, cut, same⟩ := Option.map_eq_some_iff.1 found
  obtain ⟨rfl, rfl⟩ := Prod.mk.inj same
  obtain ⟨whole, -, -, plain, -⟩ := split?_iff.1 cut
  have inside := slice_authority cut
  obtain ⟨start_boundary, stop_boundary⟩ := isBoundary_of_slice inside
  have front : scheme? url = some (s.scheme, s.authority ++ s.rest) := by
    obtain ⟨⟨scheme, behind⟩, front, rfl⟩ := Option.map_eq_some_iff.1 cut
    rw [front, List.takeWhile_append_dropWhile]
  refine ⟨?_, Nat.le_add_right .., ?_, start_boundary, stop_boundary, s.authority, inside, fun c member => ?_⟩
  · rw [schemeEnd?, front]
    rfl
  · rw [whole, Split.text, byteLength_append, byteLength_lead, byteLength_append]
    omega
  · rw [← endsAuthority_iff, plain c member]
    exact Bool.false_ne_true

/-- The host of a URL stands in its authority. -/
theorem hostPlace {url : Text} {start stop : Nat} (found : hostOffsets? url = some (start, stop)) :
    ∃ first last, authorityOffsets? url = some (first, last) ∧ HostPlace url first last start stop := by
  obtain ⟨s, cut, found⟩ := Option.bind_eq_some_iff.1 found
  obtain ⟨a, around, same⟩ := Option.map_eq_some_iff.1 found
  obtain ⟨rfl, rfl⟩ := Prod.mk.inj same
  obtain ⟨start_boundary, stop_boundary⟩ := isBoundary_of_slice (slice_host cut around)
  refine ⟨_, _, by rw [authorityOffsets?, cut]; rfl, Nat.le_add_right .., Nat.le_add_right .., ?_, start_boundary,
    stop_boundary⟩
  rw [authority_stop around]
  exact Nat.le_add_right ..

/-- There is a request exactly if there is a host that is not empty. -/
theorem exists_request_iff (url : Text) : (∃ request, Request.ofUrl? url = some request) ↔
    ∃ start stop, hostOffsets? (trim url) = some (start, stop) ∧ start ≠ stop := by
  unfold Request.ofUrl? hostOffsets?
  cases cut : split? (trim url) with
  | none => simp
  | some s =>
    cases around : Authority.of? s.authority with
    | none => simp [around]
    | some a =>
      simp only [Option.bind_some, around, Option.map_some]
      constructor
      · rintro ⟨request, found⟩
        refine ⟨_, _, rfl, fun same => ?_⟩
        rw [if_pos (range_empty_iff.1 same)] at found
        cases found
      · rintro ⟨start, stop, found, nonempty⟩
        obtain ⟨rfl, rfl⟩ := Prod.mk.inj (Option.some.inj found)
        exact ⟨_, if_neg (mt range_empty_iff.2 nonempty)⟩

/-- Offsets are found by adding up what searches in slices give, so that they lie in order and each is where a
    character begins, or the text ends. No slice between them is missing. -/
theorem offsets_nest (url : Text) :
    (∀ start stop, authorityOffsets? url = some (start, stop) → AuthorityPlace url start stop) ∧
    (∀ start stop, hostOffsets? url = some (start, stop) →
      ∃ first last, authorityOffsets? url = some (first, last) ∧ HostPlace url first last start stop) ∧
    Sliced.schemeEnd url = .ok (schemeEnd? url) ∧
    Sliced.authority url = .ok (authorityOffsets? url) ∧
    Sliced.hostRange url = .ok (hostOffsets? url) ∧
    Sliced.host url = .ok (host? url) ∧
    Sliced.request url = .ok (Request.ofUrl? url) ∧
    ((∃ request, Request.ofUrl? url = some request) ↔
      ∃ start stop, hostOffsets? (trim url) = some (start, stop) ∧ start ≠ stop) :=
  ⟨fun _ _ => authorityPlace, fun _ _ => hostPlace, schemeEnd_eq url, authority_eq url, hostRange_eq url, host_eq url,
    request_eq url, exists_request_iff url⟩

theorem offsets_nest_bracketed :
    let url := "HTTP://Mé:X@[FE80::A]:80?Q".toList
    authorityOffsets? url = some (7, 25) ∧ AuthorityPlace url 7 25 ∧
    hostOffsets? url = some (14, 21) ∧ HostPlace url 7 25 14 21 ∧
    Sliced.host url = .ok (some "FE80::A".toList) ∧ ∃ request, Request.ofUrl? url = some request := by
  intro url
  obtain ⟨authority, host, -, -, -, sliced, -, requested⟩ := offsets_nest url
  have inside : authorityOffsets? url = some (7, 25) := by decide
  have place : hostOffsets? url = some (14, 21) := by decide
  obtain ⟨first, last, outside, nested⟩ := host 14 21 place
  obtain ⟨rfl, rfl⟩ := Prod.mk.inj (Option.some.inj (outside.symm.trans inside))
  have trimmed : hostOffsets? (trim url) = some (14, 21) := by decide
  exact ⟨inside, authority 7 25 inside, place, nested, sliced.trans (by decide), requested.2 ⟨14, 21, trimmed, by decide⟩⟩

end ProxyRouting.Url
