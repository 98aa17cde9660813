import ProxyRouting.Text.Slice
import ProxyRouting.Url

/-!
The parts of a URL by their offsets. Offsets are found in slices of the URL and added up, and the parts are the
slices between them; a slice that does not exist would be an error here, where the cuts of a text around its
separators cannot fail.
-/
namespace ProxyRouting.Url.Sliced
open Text

/-- The offset behind `://`, the scheme not being empty. -/
def schemeEnd (url : Text) : Except BadSlice (Option Nat) := do
  let some colon := findOffset? (· == ':') url | return none
  if colon = 0 then return none
  let behind ← sliceFrom url (colon + 1)
  return if (dropLead? "//".toList behind).isSome then some (colon + 3) else none

/-- The scheme. -/
def scheme (url : Text) : Except BadSlice (Option Text) := do
  let some stop ← schemeEnd url | return none
  -- offsets are not negative
  if stop < 3 then throw ⟨0, stop⟩
  let scheme ← slice url 0 (stop - 3)
  return some scheme

/-- The offsets of the authority. -/
def authority (url : Text) : Except BadSlice (Option (Nat × Nat)) := do
  let some start ← schemeEnd url | return none
  let behind ← sliceFrom url start
  let stop := (findOffset? endsAuthority behind).elim (byteLength url) (start + ·)
  return some (start, stop)

/-- The offsets of the host: behind the last `@` of the authority, and up to the bracket that closes it or to the
    first colon. -/
def hostRange (url : Text) : Except BadSlice (Option (Nat × Nat)) := do
  let some (start, stop) ← authority url | return none
  let inside ← slice url start stop
  let start := (findLastOffset? (· == '@') inside).elim start (start + · + 1)
  let behind ← slice url start stop
  match behind with
  | '[' :: rest =>
    let some close := findOffset? (· == ']') rest | return none
    return some (start + 1, start + 1 + close)
  | _ => return some (start, (findOffset? (· == ':') behind).elim stop (start + ·))

/-- The host. -/
def host (url : Text) : Except BadSlice (Option Text) := do
  let some (start, stop) ← hostRange url | return none
  let host ← slice url start stop
  return some host

/-- The request of a URL, white space around it aside. -/
def request (url : Text) : Except BadSlice (Option Request) := do
  let url := trim url
  let some scheme ← scheme url | return none
  let some (hostStart, hostStop) ← hostRange url | return none
  let some (start, stop) ← authority url | return none
  if hostStart = hostStop then return none
  let scheme := lower scheme
  let host ← slice url hostStart hostStop
  let host := lower host
  let before ← slice url start hostStart
  let after ← slice url hostStop stop
  let rest ← sliceFrom url stop
  let path := if rest.head? = some '/' then rest else '/' :: rest
  return some ⟨scheme ++ "://".toList ++ before ++ host ++ after ++ path, host, scheme⟩

end ProxyRouting.Url.Sliced
