import ProxyRouting.Text.Basic

/-!
Small operations on regular expression sources as texts: slashes escaped for a literal and back, and
texts quoted so that a pattern reads them as themselves.
-/
namespace ProxyRouting.Regex

/-- Escapes each slash that is not escaped already; `escaped` tells whether a backslash precedes. -/
def escapeSlashesFrom : Bool → Text → Text
  | _, [] => []
  | escaped, c :: t =>
    (if c = '/' ∧ escaped = false then ['\\', '/'] else [c]) ++
      escapeSlashesFrom (c = '\\' ∧ escaped = false) t

/-- The source as it stands between the slashes of a literal. -/
def escapeSlashes (source : Text) : Text := escapeSlashesFrom false source

/-- The source of a literal: an escaped slash is a slash, any other escape is kept. -/
def unescapeSlashes : Text → Text
  | [] => []
  | ['\\'] => ['\\']
  | '\\' :: c :: t => if c = '/' then '/' :: unescapeSlashes t else '\\' :: c :: unescapeSlashes t
  | c :: t => c :: unescapeSlashes t

/-- Characters with a meaning of their own in some pattern notation. -/
def isMeta (c : Char) : Bool := "\\.+*?()|[]\x7b\x7d^$#&-~".toList.contains c

/-- The text with every such character escaped. -/
def quoteMeta (t : Text) : Text := t.flatMap fun c => if isMeta c then ['\\', c] else [c]

end ProxyRouting.Regex
