import ProxyRouting.Glob

/-!
Host wildcards: lists of host globs in which a leading `*.` also covers the bare domain and a leading
`**.` does not; a leading dot is short for `*.`.
-/
namespace ProxyRouting.HostPattern

/-- A leading dot is read as `*.`. -/
def expandDot (segment : Text) : Text := if segment.head? = some '.' then '*' :: segment else segment

/-- One segment as a regular expression. Behind `*.` the rest may begin anywhere a label does, and a
    star at its end needs no end of the host. -/
def segmentToRegex (segment : Text) : Text :=
  let segment := expandDot segment
  match segment with
  | '*' :: '*' :: '.' :: _ => Glob.toRegex true segment.tail
  | '*' :: '.' :: rest =>
    let glob := Glob.body rest ++ ['$']
    "(?:^|\\.)".toList ++ (Text.dropTail? ".*$".toList glob).getD glob
  | _ => Glob.toRegex true segment

/-- A host wildcard as a regular expression. -/
def toRegex (list : Text) : Text := Text.join ['|'] ((Glob.segments list).map segmentToRegex)

end ProxyRouting.HostPattern
