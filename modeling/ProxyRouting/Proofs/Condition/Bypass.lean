import ProxyRouting.Condition.Bypass
import ProxyRouting.Proofs.Condition.Subnet
import ProxyRouting.Proofs.Glob.Accepts
import ProxyRouting.Proofs.Regex.CodeSet
import ProxyRouting.Proofs.Url.Request

/-!
Bypass entries as expressions. With a port the expression is a search in the URL alone, and leaves out the test
of the scheme; that is right because the search begins with the scheme and a URL has but one
(`scheme_of_finds`).
-/
namespace ProxyRouting
open Regex ProxyRouting.Expr

/-- The items of a text that stands for itself. -/
def textPieces (t : Text) : List Piece := t.flatMap fun c => [.atom (.char c)]

theorem reads_quotedChar (c : Char) : Reads (if isMeta c then ['\\', c] else [c]) [.atom (.char c)] := by
  split
  · next special => exact reads_escaped special
  · next plain =>
    refine reads_plain (Bool.eq_false_iff.2 fun special => plain ?_)
    exact Glob.isMeta_of_isSpecial special

theorem reads_quoteMeta (t : Text) : Reads (quoteMeta t) (textPieces t) := reads_flatMap reads_quotedChar t

theorem reads_plainText {t : Text} (plain : ∀ c ∈ t, Glob.isSpecial c = false) : Reads t (textPieces t) := by
  induction t with
  | nil => exact reads_nil
  | cons c t ih =>
    exact reads_append (reads_plain (plain c (by simp))) (ih fun d member => plain d (List.mem_cons_of_mem c member))

theorem patterns_textPieces (t : Text) : (textPieces t).map Piece.pattern = t.map Pattern.char := by
  induction t with
  | nil => rfl
  | cons c t ih => exact congrArg (Pattern.char c :: ·) ih

/-- Characters that stand for themselves lead over themselves. -/
theorem covers_textPieces (t : Text) : Covers ((textPieces t).map Piece.pattern) (· = t) := by
  rw [patterns_textPieces]
  induction t with
  | nil => exact covers_nil
  | cons c t ih =>
    refine (covers_append (covers_char c) ih).congr fun part => ?_
    constructor
    · rintro ⟨_, _, rfl, rfl, rfl⟩
      rfl
    · rintro rfl
      exact ⟨[c], t, rfl, rfl, rfl⟩

/-- The items of the search of an entry with a port for the scheme: the scheme itself or, in want of one, any. -/
def schemePieces : Option Text → List Piece
  | some scheme => textPieces scheme
  | none => [.atom (.loop (.oneOf (allBut ':')) 1 none true)]

/-- The items of the search of an entry with a port. -/
def urlPieces (scheme : Option Text) (host port : Text) : List Piece :=
  schemePieces scheme ++
    (textPieces "://".toList ++ (Glob.pieces host ++ (textPieces [':'] ++ (textPieces port ++ textPieces ['/']))))

theorem reads_schemePieces (scheme : Option Text) :
    Reads ((scheme.map quoteMeta).getD "[^:]+".toList) (schemePieces scheme) := by
  cases scheme with
  | some scheme => exact reads_quoteMeta scheme
  | none => exact reads_runBut (by decide)

theorem reads_urlSource (scheme : Option Text) (host port : Text) :
    Reads (Bypass.urlSource scheme host port) ([.assertion .start] ++ urlPieces scheme host port) := by
  have colon : Reads [':'] (textPieces [':']) := reads_plainText (Text.forall_mem_of_all (by decide))
  have slash : Reads ['/'] (textPieces ['/']) := reads_plainText (Text.forall_mem_of_all (by decide))
  have marks : Reads "://".toList (textPieces "://".toList) := reads_plainText (Text.forall_mem_of_all (by decide))
  have server := reads_append (Glob.reads_body host) (reads_append colon (reads_append (reads_quoteMeta port) slash))
  have source : Bypass.urlSource scheme host port = ['^'] ++ ((scheme.map quoteMeta).getD "[^:]+".toList ++
      ("://".toList ++ (Glob.body host ++ ([':'] ++ (quoteMeta port ++ ['/']))))) := by
    simp [Bypass.urlSource]
  rw [source]
  exact reads_append reads_start (reads_append (reads_schemePieces scheme) (reads_append marks server))

/-- What the search of an entry with a port takes for the scheme. -/
def Bypass.Admits : Option Text → Text → Prop
  | some scheme, t => t = scheme
  | none, t => t ≠ [] ∧ ':' ∉ t

theorem contains_allBut (c d : Char) : (allBut c).any (·.contains d) = true ↔ d ≠ c := by
  have codes : [ClassItem.one (.char c)].flatMap ClassItem.codes = [⟨c.toNat, c.toNat⟩] := rfl
  have valid : CodeSet.Valid [⟨c.toNat, c.toNat⟩] := by
    intro range member
    rw [List.mem_singleton.1 member]
    exact ⟨Nat.le_refl _, CodeSet.toNat_le c⟩
  rw [List.any_eq_true, allBut, contains_scalars_classCodes (codes ▸ valid), codes]
  have same : c.toNat ≤ d.toNat ∧ d.toNat ≤ c.toNat ↔ d = c := by
    rw [← Char.toNat_inj]
    omega
  simp [CodeSet.contains, same]

theorem covers_schemePieces (scheme : Option Text) :
    Covers ((schemePieces scheme).map Piece.pattern) (Bypass.Admits scheme) := by
  cases scheme with
  | some scheme => exact covers_textPieces scheme
  | none =>
    refine (covers_run (allBut ':') 1 true).congr fun t => ?_
    simp only [contains_allBut, Bypass.Admits]
    constructor
    · rintro ⟨some, plain⟩
      exact ⟨List.ne_nil_of_length_pos some, fun colon => plain ':' colon rfl⟩
    · rintro ⟨some, plain⟩
      refine ⟨List.length_pos_of_ne_nil some, ?_⟩
      rintro c member rfl
      exact plain member

/-- The search of an entry with a port finds a scheme, a part that the glob takes, and the port, from the start of the
    URL to a slash. Nothing keeps that part within the authority. -/
theorem finds_urlSource_iff (scheme : Option Text) (host port url : Text) :
    (Search.ofSource (Bypass.urlSource scheme host port)).finds url = true ↔
      ∃ front part rest, url = front ++ "://".toList ++ (part ++ ':' :: (port ++ '/' :: rest)) ∧
        Bypass.Admits scheme front ∧ Glob.takes host part := by
  have covers : Covers ((urlPieces scheme host port).map Piece.pattern) fun found => ∃ front part,
      found = front ++ "://".toList ++ (part ++ ':' :: (port ++ ['/'])) ∧
        Bypass.Admits scheme front ∧ Glob.takes host part := by
    have server := covers_append (Glob.covers_pieces host)
      (covers_append (covers_textPieces [':']) (covers_append (covers_textPieces port) (covers_textPieces ['/'])))
    have whole := covers_append (covers_schemePieces scheme) (covers_append (covers_textPieces "://".toList) server)
    simp only [urlPieces, List.map_append]
    refine whole.congr fun found => ?_
    constructor
    · rintro ⟨front, _, rfl, admitted, _, _, rfl, rfl, part, _, rfl, taken, _, _, rfl, rfl, _, _, rfl, rfl, rfl⟩
      exact ⟨front, part, by simp, admitted, taken⟩
    · rintro ⟨front, part, rfl, admitted, taken⟩
      exact ⟨front, _, List.append_assoc _ _ _, admitted, _, _, rfl, rfl, part, _, rfl, taken, [':'], _, rfl, rfl,
        port, ['/'], rfl, rfl, rfl⟩
  rw [finds_anchored (reads_urlSource scheme host port) covers]
  constructor
  · rintro ⟨_, rest, rfl, front, part, rfl, admitted, taken⟩
    exact ⟨front, part, rest, by simp, admitted, taken⟩
  · rintro ⟨front, part, rest, rfl, admitted, taken⟩
    exact ⟨_, rest, by simp, front, part, rfl, admitted, taken⟩

/-- What the search of an entry takes for the scheme in the URL of a request is the scheme of the request. -/
theorem scheme_of_admits {entry front rest url : Text} {r : Request} (made : Request.ofUrl? url = some r)
    (admitted : Bypass.Admits (Bypass.splitScheme entry).1 front) (same : r.url = front ++ "://".toList ++ rest) :
    front = r.scheme := by
  obtain ⟨noColon, rest', whole⟩ := url_of_request made
  unfold Bypass.splitScheme at admitted
  cases cut : Text.cut? "://".toList entry with
  | some found =>
    rw [cut] at admitted
    rw [admitted]
    exact Url.scheme_unique cut noColon (whole.symm.trans (admitted ▸ same))
  | none =>
    rw [cut] at admitted
    have front' := Text.cut?_single admitted.2 ('/' :: '/' :: rest)
    have scheme' := Text.cut?_single noColon ('/' :: '/' :: rest')
    have one : front ++ ':' :: '/' :: '/' :: rest = r.scheme ++ ':' :: '/' :: '/' :: rest' := by
      simpa using same.symm.trans whole
    rw [one, scheme'] at front'
    exact (Prod.mk.inj (Option.some.inj front')).1.symm

/-- The search of an entry finds only URLs of the entry's scheme. -/
theorem scheme_of_finds {entry host port url : Text} {r : Request} (made : Request.ofUrl? url = some r)
    (found : (Search.ofSource (Bypass.urlSource (Bypass.splitScheme entry).1 host port)).finds r.url = true) :
    (Bypass.splitScheme entry).1.all (· = r.scheme) = true := by
  obtain ⟨front, part, rest, same, admitted, _⟩ := (finds_urlSource_iff _ host port r.url).1 found
  have named := scheme_of_admits made admitted same
  cases wanted : (Bypass.splitScheme entry).1 with
  | none => rfl
  | some scheme =>
    rw [wanted] at admitted
    have front' : front = scheme := admitted
    simp [← named, front']

section
variable {call : Env → Expr → Except EvalError Value} {env : Env} {r : Request} {now : LocalTime}

theorem truth_localExpr (serves : env.Serves r now) : Truth call env Bypass.localExpr (Bypass.isLocal r.host) := by
  have host : evalWith call env (.name "host") = .ok (.string r.host) := evalWith_name serves.host
  have dotless : decide ('.' ∉ r.host) = !Text.contains ['.'] r.host := by
    cases inside : Text.contains ['.'] r.host with
    | true => simpa using Text.contains_single.1 inside
    | false => simpa using fun member => Bool.eq_false_iff.1 inside (Text.contains_single.2 member)
  unfold Bypass.isLocal
  rw [dotless]
  exact truth_or (truth_or (truth_sameString serves.host _) (truth_sameString serves.host _)) (truth_missing host ['.'])

theorem truth_schemeExpr (serves : env.Serves r now) (scheme : Text) :
    Truth call env (Bypass.schemeExpr scheme) (r.scheme = scheme) := truth_sameString serves.scheme scheme

/-- The scheme of an entry that has one, and what else it asks. -/
theorem truth_parts (serves : env.Serves r now) (scheme : Option Text) {es : List Expr} {answers : List Bool}
    (each : List.Forall₂ (Truth call env) es answers) :
    Truth call env (.allOf (scheme.toList.map Bypass.schemeExpr ++ es)) (scheme.all (· = r.scheme) && answers.all id) := by
  cases scheme with
  | none => simpa using truth_allOf each
  | some scheme =>
    have whole := truth_allOf (.cons (truth_schemeExpr serves scheme) each)
    simpa [eq_comm] using whole

end

section
variable {inner : Env → Expr → Except EvalError Value} {env : Env} {r : Request} {now : LocalTime}

theorem truth_networkEntry (serves : env.Serves r now) (unbracketed : '[' ∉ r.host) {n : Ip.Network}
    (fits : n.address.isV4 = true → Text.unitLength r.host ≤ Binary64.exactBound) (positive : n.length ≠ 0)
    (scheme : Option Text) (normalized : Text) :
    Truth (evalWith inner) env (Bypass.toExpr ⟨scheme, some n, .any, none, none, normalized⟩)
      (Bypass.isMatch ⟨scheme, some n, .any, none, none, normalized⟩ r) := by
  have part : Truth (evalWith inner) env n.toExpr (n.containsHost r.host) :=
    truth_networkExpr serves unbracketed fits positive
  have whole := truth_parts serves scheme (.cons part .nil)
  simpa [Bypass.isMatch, Bypass.toExpr, Bypass.hostExprs] using whole

theorem truth_globEntry (serves : env.Serves r now) (scheme : Option Text) (glob normalized : Text) :
    Truth (evalWith inner) env (Bypass.toExpr ⟨scheme, none, Bypass.hostOfGlob glob, none, none, normalized⟩)
      (Bypass.isMatch ⟨scheme, none, Bypass.hostOfGlob glob, none, none, normalized⟩ r) := by
  unfold Bypass.hostOfGlob
  split
  · have nothing : List.Forall₂ (Truth (evalWith inner) env) [] [] := .nil
    have whole := truth_parts serves scheme nothing
    simpa [Bypass.isMatch, Bypass.toExpr, Bypass.hostExprs] using whole
  · have part : Truth (evalWith inner) env ((Search.ofSource (Glob.toRegex true glob)).toExpr "host") _ :=
      truth_search _ serves.host
    have whole := truth_parts serves scheme (.cons part .nil)
    simpa [Bypass.isMatch, Bypass.toExpr, Bypass.hostExprs] using whole

theorem truth_portEntry {url entry : Text} (made : Request.ofUrl? url = some r) (serves : env.Serves r now)
    (host port normalized : Text) :
    Truth (evalWith inner) env
      (Bypass.toExpr ⟨(Bypass.splitScheme entry).1, none, .any, some port,
        some (.ofSource (Bypass.urlSource (Bypass.splitScheme entry).1 host port)), normalized⟩)
      (Bypass.isMatch ⟨(Bypass.splitScheme entry).1, none, .any, some port,
        some (.ofSource (Bypass.urlSource (Bypass.splitScheme entry).1 host port)), normalized⟩ r) := by
  have scheme : (Search.ofSource (Bypass.urlSource (Bypass.splitScheme entry).1 host port)).finds r.url = true →
      (Bypass.splitScheme entry).1.all (· = r.scheme) = true := scheme_of_finds made
  generalize Search.ofSource (Bypass.urlSource (Bypass.splitScheme entry).1 host port) = search at scheme ⊢
  have answer : Bypass.isMatch ⟨(Bypass.splitScheme entry).1, none, .any, some port, some search, normalized⟩ r =
      search.finds r.url := by
    cases within : search.finds r.url with
    | true => simp [Bypass.isMatch, within, scheme within]
    | false => simp [Bypass.isMatch, within]
  rw [answer]
  exact truth_search search serves.url

/-- The expression of a bypass entry agrees with the entry, a network of length zero aside. -/
theorem truth_bypassExpr {url : Text} (made : Request.ofUrl? url = some r) (serves : env.Serves r now)
    (unbracketed : '[' ∉ r.host) (entry : Text) (positive : ∀ n ∈ (Bypass.ofText entry).network, n.length ≠ 0)
    (fits : ∀ n ∈ (Bypass.ofText entry).network, n.address.isV4 = true →
      Text.unitLength r.host ≤ Binary64.exactBound) :
    Truth (evalWith inner) env (Bypass.ofText entry).toExpr ((Bypass.ofText entry).isMatch r) := by
  revert positive fits
  unfold Bypass.ofText
  split
  · intro _ _
    have answer : Bypass.isMatch ⟨none, none, .loopback, none, none, Bypass.localText⟩ r = Bypass.isLocal r.host := by
      simp [Bypass.isMatch]
    rw [answer]
    exact truth_localExpr serves
  · simp only
    split
    · next n network => exact fun positive fits => truth_networkEntry serves unbracketed (fits n rfl) (positive n rfl) _ _
    · split
      · exact fun _ _ => truth_portEntry made serves _ _ _
      · exact fun _ _ => truth_globEntry serves _ _ _

end
end ProxyRouting
