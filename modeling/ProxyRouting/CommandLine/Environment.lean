import ProxyRouting.LocalTime

/-!
What commands need from the world around them, and a world of their own: a directory in memory, without
directories in it, where it is always the same time.
-/
namespace ProxyRouting.CommandLine

/-- Why a file cannot be read or written. -/
inductive FileFault
  | missing
  | denied
  | notDirectory
  | isDirectory
  | nameTooLong
  | notText
  | other (message : Text)
  deriving DecidableEq, Repr

/-- The wording of a fault. -/
def FileFault.message : FileFault → Text
  | .missing => "No such file or directory (os error 2)".toList
  | .denied => "Permission denied (os error 13)".toList
  | .notDirectory => "Not a directory (os error 20)".toList
  | .isDirectory => "Is a directory (os error 21)".toList
  | .nameTooLong => "File name too long (os error 36)".toList
  | .notText => "stream did not contain valid UTF-8".toList
  | .other message => message

/-- Files, the local time, and a clock that counts microseconds. -/
structure Environment (m : Type → Type) where
  read : Text → m (Except FileFault Text)
  write : Text → Text → m (Except FileFault Unit)
  now : m LocalTime
  ticks : m Nat

/-- A directory without directories: contents by name. -/
abbrev Directory := List (Text × Text)

namespace Directory

/-- What a path leads to: a directory, or a name in this one, which a slash may follow. -/
inductive Target
  | named (name : Text) (slash : Bool)
  | directory
  | fault (f : FileFault)
  deriving DecidableEq, Repr

/-- How many bytes a name may have. -/
def maxNameBytes : Nat := 255

/-- How many bytes a path may have. -/
def maxPathBytes : Nat := 4095

/-- The part stays in a directory or leaves it for the one above. -/
def isDots (part : Text) : Bool := part = ['.'] || part = ['.', '.']

/-- Follows the parts of a path elsewhere, where there are directories and nothing else. -/
def followOutside (parts : List Text) : Target := if parts.all isDots then .directory else .fault .missing

/-- Why a name does not lead on to what follows it. -/
def deadEnd (d : Directory) (name : Text) : FileFault :=
  if maxNameBytes < Text.byteLength name then .nameTooLong
  else if (d.lookup name).isSome then .notDirectory
  else .missing

/-- Follows the parts of a path. -/
def followParts (d : Directory) (slash : Bool) : List Text → Target
  | [] => .directory
  | part :: parts =>
    if part = ['.'] then followParts d slash parts
    else if part = ['.', '.'] then followOutside parts
    else if parts = [] then .named part slash
    else .fault (d.deadEnd part)

/-- Follows a path. Slashes separate its parts, however many; one in front leads elsewhere. -/
def follow (d : Directory) (path : Text) : Target :=
  let parts := (path.splitOn '/').filter (· ≠ [])
  if path = [] then .fault .missing
  else if maxPathBytes < Text.byteLength path then .fault .nameTooLong
  else if path.head? = some '/' then followOutside parts
  else d.followParts (path.getLast? = some '/') parts

/-- Reads a file; a slash behind its name asks for a directory. -/
def read (d : Directory) (path : Text) : Except FileFault Text :=
  match d.follow path with
  | .named name slash =>
    if maxNameBytes < Text.byteLength name then .error .nameTooLong
    else
      match d.lookup name with
      | none => .error .missing
      | some content => if slash then .error .notDirectory else .ok content
  | .directory => .error .isDirectory
  | .fault f => .error f

/-- Writes a file, which may be a new one; with a slash behind its name it cannot be one. -/
def write (d : Directory) (path content : Text) : Except FileFault Directory :=
  match d.follow path with
  | .named name slash =>
    if slash then .error .isDirectory
    else if maxNameBytes < Text.byteLength name then .error .nameTooLong
    else .ok ((name, content) :: d.filter fun entry => entry.1 ≠ name)
  | .directory => .error .isDirectory
  | .fault f => .error f

/-- The environment of a directory and a time. -/
def environment (now : LocalTime) : Environment (StateM Directory) where
  read path := fun d => (d.read path, d)
  write path content := fun d =>
    match d.write path content with
    | .ok d => (.ok (), d)
    | .error f => (.error f, d)
  now := pure now
  ticks := pure 0

end Directory
end ProxyRouting.CommandLine
