import ProxyRouting.CommandLine.Arguments
import ProxyRouting.CommandLine.Environment
import ProxyRouting.RuleList.Diagnosis
import ProxyRouting.RuleList.Optimize
import ProxyRouting.RuleList.Script
import ProxyRouting.Site

/-!
What each command does: it loads the conditions, files first, and prints its answer or the reason why
there is none. Arguments that make no command end with code 2, all other failures with code 1.
-/
namespace ProxyRouting.CommandLine

/-- Why a command fails. -/
inductive Failure
  | noConditions
  | unparsable (condition : Text)
  | unreadable (path : Text) (fault : FileFault)
  | invalidList (path : Text) (fault : RuleList.Fault)
  | request (e : ConditionError)
  | time (text : Text) (fault : LocalTime.Fault)
  | compilation (e : ConditionError)
  | unwritable (path : Text) (fault : FileFault)
  | problems (count total : Nat)
  | noHost (url : Text)
  deriving DecidableEq, Repr

/-- A text between single quotes. -/
def quoted (t : Text) : Text := "'".toList ++ t ++ "'".toList

/-- The wording of a failure. -/
def Failure.message : Failure → Text
  | .noConditions => "No conditions given (use --condition or --file)".toList
  | .unparsable condition => "Unparsable condition ".toList ++ quoted condition
  | .unreadable path fault => "Failed to read ".toList ++ quoted path ++ ": ".toList ++ fault.message
  | .invalidList path fault => "Invalid conditions in ".toList ++ quoted path ++ ": ".toList ++ fault.message
  | .request e => e.message
  | .time text fault => "Invalid time ".toList ++ quoted text ++ ": ".toList ++ fault.message
  | .compilation e => "Compilation failed: ".toList ++ e.message
  | .unwritable path fault => "Failed to write ".toList ++ quoted path ++ ": ".toList ++ fault.message
  | .problems count total =>
    Text.ofNat count ++ " of ".toList ++ Text.ofNat total ++ " conditions have problems".toList
  | .noHost url => "No host in ".toList ++ quoted url

/-- What a command prints, and why it fails if it does. -/
structure Report where
  printed : Text
  failure : Option Failure
  deriving DecidableEq, Repr

/-- How a command line ends: its code, and what it prints on either stream. -/
structure Outcome where
  code : UInt8
  out : Text
  err : Text
  deriving DecidableEq, Repr

/-- A text on a line of its own. -/
def line (t : Text) : Text := t ++ ['\n']

/-- The outcome of a command. -/
def Report.outcome (r : Report) : Outcome :=
  match r.failure with
  | none => ⟨0, r.printed, []⟩
  | some f => ⟨1, r.printed, line ("Error: ".toList ++ f.message)⟩

/-- The last part of a path. -/
def fileName (path : Text) : Text := ((path.splitOn '/').filter fun part => part ≠ [] ∧ part ≠ ['.']).getLast?.getD []

/-- The path is that of a JSON document: behind the last dot of the name, which is not its first
    character, stands `json` in either case. -/
def isJsonPath (path : Text) : Bool :=
  match Text.cutLast? '.' (fileName path) with
  | some (stem, extension) => stem ≠ [] && Text.lower extension = "json".toList
  | none => false

/-- The list that a file holds. -/
def listOfFile (path content : Text) : Except Failure RuleList :=
  match if isJsonPath path then RuleList.ofJsonText content else RuleList.ofText content with
  | .ok cs => .ok cs
  | .error fault => .error (.invalidList path fault)

/-- The conditions that are given as texts. -/
def inlineConditions (texts : List Text) : Except Failure RuleList :=
  texts.mapM fun t => (Condition.ofText? t).elim (.error (.unparsable t)) .ok

/-- The conditions of files, one after the other. -/
def loadFiles {m : Type → Type} [Monad m] (env : Environment m) : List Text → ExceptT Failure m RuleList
  | [] => pure []
  | path :: paths => do
    match ← (env.read path : m _) with
    | .error fault => throw (.unreadable path fault)
    | .ok content =>
      let cs ← ExceptT.mk (pure (listOfFile path content))
      return cs ++ (← loadFiles env paths)

/-- The conditions of a source, of which there must be some. -/
def load {m : Type → Type} [Monad m] (env : Environment m) (source : Source) : ExceptT Failure m RuleList := do
  if source.conditions = [] ∧ source.files = [] then throw .noConditions
  else
    let cs ← loadFiles env source.files
    return cs ++ (← ExceptT.mk (pure (inlineConditions source.conditions)))

/-- A condition that matches, with its place counted from one. -/
structure Found where
  place : Nat
  condition : Condition
  deriving DecidableEq, Repr

/-- The conditions that match; one without an analysis does not. -/
def matching (r : Request) (now : LocalTime) : Nat → RuleList → List Found
  | _, [] => []
  | place, c :: cs =>
    (match c.isMatch r now with
      | .ok true => [⟨place, c⟩]
      | _ => []) ++ matching r now (place + 1) cs

/-- The matches as a document. -/
def matchesJson (r : Request) (now : LocalTime) (found : List Found) : Json :=
  let field (key : String) (j : Json) : Text × Json := (key.toList, j)
  .obj [
    field "request" (.obj [field "url" (.str r.url), field "host" (.str r.host), field "scheme" (.str r.scheme)]),
    field "at" (.str now.toText),
    field "matched" (.arr (found.map fun f =>
      .obj [field "index" (.whole f.place), field "condition" (.str f.condition.toText)]))]

/-- A text with spaces behind it, up to the given width. -/
def padEnd (width : Nat) (t : Text) : Text := t ++ List.replicate (width - t.length) ' '

/-- The matches as lines. -/
def matchesText (r : Request) (total : Nat) (found : List Found) : Text :=
  line ("Request: ".toList ++ r.url ++ " (host ".toList ++ r.host ++ ", scheme ".toList ++ r.scheme ++ [')']) ++
    if found = [] then line ("  No matching conditions (".toList ++ Text.ofNat total ++ " checked)".toList)
    else found.flatMap fun f =>
      line ("  #".toList ++ padEnd 4 (Text.ofNat f.place) ++ ' ' :: f.condition.toText)

/-- Reads a time, or takes the current one. -/
def timeOf {m : Type → Type} [Monad m] (env : Environment m) : Option Text → ExceptT Failure m LocalTime
  | none => (env.now : m _)
  | some t =>
    match LocalTime.read t with
    | .ok time => pure time
    | .error fault => throw (.time t fault)

/-- Which conditions match. -/
def runLookup {m : Type → Type} [Monad m] (env : Environment m) (url : Text) (source : Source)
    (time : Option Text) (json : Bool) : ExceptT Failure m Report := do
  let cs ← load env source
  match Request.ofUrl url with
  | .error e => throw (.request e)
  | .ok r =>
    let now ← timeOf env time
    let found := matching r now 1 cs
    return ⟨if json then line ((matchesJson r now found).pretty 0) else matchesText r cs.length found, none⟩

/-- The list itself, or a shorter one. -/
def optimizeIf (wanted : Bool) (cs : RuleList) : RuleList := if wanted then (RuleList.optimize cs).list else cs

/-- The text that a list compiles to. -/
def compiledText (cs : RuleList) (proxy : Option Text) : Except ConditionError Text :=
  match proxy with
  | some proxy => RuleList.script cs proxy
  | none => (RuleList.predicate cs).map fun e => line e.render

/-- Microseconds as milliseconds with one place. -/
def milliseconds (ticks : Nat) : Text :=
  let tenths := (ticks + 50) / 100
  Text.ofNat (tenths / 10) ++ '.' :: Text.ofNat (tenths % 10)

/-- What is printed about a file that was written. -/
def writtenText (count : Nat) (path : Text) (ticks : Nat) : Text :=
  line ("Compiled ".toList ++ Text.ofNat count ++ " conditions to ".toList ++ quoted path ++ " in ".toList ++
    milliseconds ticks ++ "ms".toList)

/-- The predicate or the script of the conditions. -/
def runCompile {m : Type → Type} [Monad m] (env : Environment m) (source : Source) (proxy : Option Text)
    (optimize : Bool) (output : Option Text) : ExceptT Failure m Report := do
  let start ← (env.ticks : m _)
  let cs := optimizeIf optimize (← load env source)
  match compiledText cs proxy with
  | .error e => throw (.compilation e)
  | .ok text =>
    match output with
    | none => return ⟨text, none⟩
    | some path =>
      match ← (env.write path text : m _) with
      | .error fault => throw (.unwritable path fault)
      | .ok () => return ⟨writtenText cs.length path ((← (env.ticks : m _)) - start), none⟩

/-- The conditions in their own spelling. -/
def runNormalize {m : Type → Type} [Monad m] (env : Environment m) (source : Source) (optimize json : Bool) :
    ExceptT Failure m Report := do
  let cs := optimizeIf optimize (← load env source)
  return ⟨if json then line ((RuleList.toJson cs).pretty 0) else RuleList.toText cs, none⟩

/-- What is wrong with the conditions. -/
def runCheck {m : Type → Type} [Monad m] (env : Environment m) (source : Source) : ExceptT Failure m Report := do
  let cs ← load env source
  match RuleList.problems cs with
  | [] => return ⟨line (Text.ofNat cs.length ++ " conditions, no problems found".toList), none⟩
  | ps => return ⟨ps.flatMap fun p => line ("  ".toList ++ p.message), some (.problems ps.length cs.length)⟩

/-- A condition for the site of a URL. -/
def runSuggest {m : Type → Type} [Monad m] (url : Text) : ExceptT Failure m Report :=
  match Site.wildcardOfUrl? url with
  | some pattern => return ⟨line (Condition.hostWildcard pattern).toText, none⟩
  | none => throw (.noHost url)

/-- What a command does. -/
def Command.run {m : Type → Type} [Monad m] (env : Environment m) : Command → ExceptT Failure m Report
  | .lookup url source time json => runLookup env url source time json
  | .compile source proxy optimize output => runCompile env source proxy optimize output
  | .normalize source optimize json => runNormalize env source optimize json
  | .check source => runCheck env source
  | .suggest url => runSuggest url

/-- How to use the command line. -/
def usage : Text :=
  ("Usage: proxy-routing COMMAND [OPTIONS]\n\n" ++
    "  match URL [-c CONDITION]... [-f FILE]... [--at TIME] [--json]\n" ++
    "  compile   [-c CONDITION]... [-f FILE]... [-p PROXY] [--optimize] [-o OUTPUT]\n" ++
    "  normalize [-c CONDITION]... [-f FILE]... [--optimize] [--json]\n" ++
    "  check     [-c CONDITION]... [-f FILE]...\n" ++
    "  suggest URL\n").toList

/-- Runs a command line. -/
def run {m : Type → Type} [Monad m] (env : Environment m) (arguments : List Text) : m Outcome :=
  match Command.ofArguments arguments with
  | .error .help => pure ⟨0, usage, []⟩
  | .error .misuse => pure ⟨2, [], usage⟩
  | .ok command => do
    match ← (command.run env).run with
    | .ok report => return report.outcome
    | .error failure => return (Report.mk [] (some failure)).outcome

end ProxyRouting.CommandLine
