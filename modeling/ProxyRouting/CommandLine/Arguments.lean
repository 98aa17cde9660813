import ProxyRouting.Text.Basic

/-!
The command line: a command with its options and, for some, a URL. An option is spelled `--name VALUE`
or `--name=VALUE`, some also `-n VALUE`, `-nVALUE` or `-n=VALUE`; a value of its own does not begin with
a dash, and behind `--` everything stands for itself. What is given once too often is an error.
-/
namespace ProxyRouting.CommandLine

/-- Where conditions come from: texts, and files. -/
structure Source where
  conditions : List Text
  files : List Text
  deriving DecidableEq, Repr

/-- What is asked for. -/
inductive Command
  /-- Which conditions match a URL, at a time or now. -/
  | lookup (url : Text) (source : Source) (time : Option Text) (json : Bool)
  /-- The predicate of the conditions or, for a proxy, their script. -/
  | compile (source : Source) (proxy : Option Text) (optimize : Bool) (output : Option Text)
  /-- The conditions in their own spelling. -/
  | normalize (source : Source) (optimize json : Bool)
  /-- What is wrong with the conditions. -/
  | check (source : Source)
  /-- A condition for the site of a URL. -/
  | suggest (url : Text)
  deriving DecidableEq, Repr

/-- Why there is no command: help was asked for, or the arguments make none. -/
inductive Refusal
  | help
  | misuse
  deriving DecidableEq, Repr

/-- An option by its name, and by a letter that some have. -/
structure OptionName where
  name : Text
  letter : Option Char
  takesValue : Bool
  deriving DecidableEq, Repr

/-- An option without a value. -/
def flag (name : String) : OptionName := ⟨name.toList, none, false⟩

/-- An option with a value and a letter. -/
def valued (name : String) (letter : Option Char) : OptionName := ⟨name.toList, letter, true⟩

/-- An option as given; one without a value has the empty one. -/
structure Given where
  option : Text
  value : Text
  deriving DecidableEq, Repr

/-- The arguments of a command: options, and what stands for itself. -/
structure Arguments where
  options : List Given
  operands : List Text
  deriving DecidableEq, Repr

/-- One more option in front. -/
def Arguments.give (a : Arguments) (option value : Text) : Arguments :=
  { a with options := ⟨option, value⟩ :: a.options }

/-- One more operand in front. -/
def Arguments.operand (a : Arguments) (t : Text) : Arguments := { a with operands := t :: a.operands }

/-- The argument can be the value of the option before it. -/
def standsAsValue (t : Text) : Bool := t.head? ≠ some '-' || t = ['-']

/-- An argument read as an option: its name, and the value that is part of it. -/
def optionOf? (options : List OptionName) (t : Text) : Option (OptionName × Option Text) :=
  match t with
  | '-' :: '-' :: t =>
    let (name, value) := match Text.cut? ['='] t with
      | some (name, value) => (name, some value)
      | none => (t, none)
    (options.find? fun o => o.name = name).map fun o => (o, value)
  | '-' :: letter :: t =>
    let value := match t with
      | [] => none
      | '=' :: t => some t
      | t => some t
    (options.find? fun o => o.letter = some letter).map fun o => (o, value)
  | _ => none

/-- Help is asked for. -/
def asksForHelp (t : Text) : Bool := t = "-h".toList || t = "--help".toList

/-- Reads arguments against the options of a command. -/
def readArguments (options : List OptionName) : List Text → Except Refusal Arguments
  | [] => .ok ⟨[], []⟩
  | t :: ts =>
    if t = "--".toList then .ok ⟨[], ts⟩
    else if standsAsValue t then (readArguments options ts).map (·.operand t)
    else if asksForHelp t then .error .help
    else
      match optionOf? options t with
      | none => .error .misuse
      | some (o, value) =>
        match o.takesValue, value, ts with
        | true, some value, ts => (readArguments options ts).map (·.give o.name value)
        | true, none, value :: ts =>
          if standsAsValue value then (readArguments options ts).map (·.give o.name value) else .error .misuse
        | true, none, [] => .error .misuse
        | false, some _, _ => .error .misuse
        | false, none, ts => (readArguments options ts).map (·.give o.name [])

/-- All values given for an option. -/
def Arguments.values (a : Arguments) (option : String) : List Text :=
  (a.options.filter fun g => g.option = option.toList).map (·.value)

/-- The value of an option that is given at most once. -/
def Arguments.value? (a : Arguments) (option : String) : Except Refusal (Option Text) :=
  match a.values option with
  | [] => .ok none
  | [value] => .ok (some value)
  | _ => .error .misuse

/-- An option without a value is given, at most once. -/
def Arguments.has (a : Arguments) (option : String) : Except Refusal Bool := (a.value? option).map (·.isSome)

/-- The only operand. -/
def Arguments.url (a : Arguments) : Except Refusal Text :=
  match a.operands with
  | [t] => .ok t
  | _ => .error .misuse

/-- There is no operand. -/
def Arguments.noOperand (a : Arguments) : Except Refusal Unit :=
  if a.operands = [] then .ok () else .error .misuse

/-- The source of conditions. -/
def Arguments.source (a : Arguments) : Source := ⟨a.values "condition", a.values "file"⟩

/-- The options for a source of conditions. -/
def sourceOptions : List OptionName := [valued "condition" (some 'c'), valued "file" (some 'f')]

/-- Reads the arguments of a command by the command's name. -/
def Command.ofNamed (name : String) (arguments : List Text) : Except Refusal Command :=
  match name with
  | "match" => do
    let a ← readArguments (sourceOptions ++ [valued "at" none, flag "json"]) arguments
    return .lookup (← a.url) a.source (← a.value? "at") (← a.has "json")
  | "compile" => do
    let a ← readArguments
      (sourceOptions ++ [valued "proxy" (some 'p'), flag "optimize", valued "output" (some 'o')]) arguments
    a.noOperand
    return .compile a.source (← a.value? "proxy") (← a.has "optimize") (← a.value? "output")
  | "normalize" => do
    let a ← readArguments (sourceOptions ++ [flag "optimize", flag "json"]) arguments
    a.noOperand
    return .normalize a.source (← a.has "optimize") (← a.has "json")
  | "check" => do
    let a ← readArguments sourceOptions arguments
    a.noOperand
    return .check a.source
  | "suggest" => do
    let a ← readArguments [] arguments
    return .suggest (← a.url)
  | "help" => .error .help
  | _ => .error .misuse

/-- Reads a whole command line. -/
def Command.ofArguments : List Text → Except Refusal Command
  | [] => .error .misuse
  | name :: arguments =>
    if asksForHelp name then .error .help else Command.ofNamed (String.ofList name) arguments

end ProxyRouting.CommandLine
