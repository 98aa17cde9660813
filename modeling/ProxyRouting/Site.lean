import ProxyRouting.Url

/-!
The site a host belongs to: its public suffix, under which names are registered, and the one label
before it. Suffixes follow the rules of a list: of the rules that match the end of a host the longest
counts, a star matches any label, an exception wins over all and is one label shorter, and a host that
no rule matches ends in a suffix of one label.
-/
namespace ProxyRouting.Site

/-- One rule, its labels from the last to the first, `none` for a star. -/
structure SuffixRule where
  labels : List (Option Text)
  isException : Bool
  deriving DecidableEq, Repr

/-- A rule as lists write it: labels with dots, a star for any, an exception behind `!`. -/
def SuffixRule.ofText (t : Text) : SuffixRule :=
  let (isException, t) := match t with
    | '!' :: t => (true, t)
    | t => (false, t)
  ⟨(t.splitOn '.').reverse.map fun label => if label = ['*'] then none else some label, isException⟩

/-- The rule matches labels given from the last to the first. -/
def SuffixRule.isMatch (rule : SuffixRule) (labels : List Text) : Bool :=
  rule.labels.length ≤ labels.length &&
    (rule.labels.zip labels).all fun (pattern, label) => pattern.all (· == label)

/-- The rules of the list. -/
def suffixRules : List SuffixRule :=
  ["com", "uk", "co.uk", "*.ck", "!www.ck", "io", "github.io", "cn", "com.cn", "公司.cn", "jp", "*.kobe.jp",
    "!city.kobe.jp", "ar", "com.ar", "id", "co.id", "br", "org.br"].map fun t => SuffixRule.ofText t.toList

/-- How many labels the public suffix has. -/
def suffixLength (rules : List SuffixRule) (labels : List Text) : Nat :=
  let found := rules.filter fun rule => rule.isMatch labels.reverse
  match found.find? fun rule => rule.isException with
  | some rule => rule.labels.length - 1
  | none => found.foldl (fun n rule => max n rule.labels.length) 1

/-- The public suffix and the label before it, if there is one. -/
def registered? (host : Text) : Option Text :=
  let labels := host.splitOn '.'
  let kept := suffixLength suffixRules labels + 1
  if labels.length < kept then none else some (Text.join ['.'] (labels.drop (labels.length - kept)))

/-- The host looks like an address: a colon behind its first character, or a digit at its end. -/
def looksLikeAddress (host : Text) : Bool :=
  (match Text.cut? [':'] host with
    | some (before, _) => !before.isEmpty
    | none => false) ||
    host.getLast?.any Char.isDigit

/-- The host without the dots at its end. -/
def dropRootDots (host : Text) : Text := (host.reverse.dropWhile (· = '.')).reverse

section
variable (registered? : Text → Option Text)

/-- The site of a host, by a look-up of registered names; addresses, single labels and bare suffixes are their own. -/
def ofHostBy (host : Text) : Text :=
  if looksLikeAddress host then host
  else
    let host := dropRootDots host
    (registered? host).getD host

/-- The host wildcard that covers the whole site of a host. -/
def wildcardBy (host : Text) : Text :=
  if looksLikeAddress host then host else "*.".toList ++ ofHostBy registered? host

/-- The host wildcard that covers the site of a URL, if it has a host. -/
def wildcardOfUrlBy? (url : Text) : Option Text :=
  match Url.host? url with
  | none => none
  | some [] => none
  | some host => some (wildcardBy registered? (Text.lower host))

end

/-- The site of a host by the rules of the list. -/
def ofHost (host : Text) : Text := ofHostBy registered? host

/-- The host wildcard for the site of a host by the rules of the list. -/
def wildcard (host : Text) : Text := wildcardBy registered? host

/-- The host wildcard for the site of a URL by the rules of the list. -/
def wildcardOfUrl? (url : Text) : Option Text := wildcardOfUrlBy? registered? url

end ProxyRouting.Site
