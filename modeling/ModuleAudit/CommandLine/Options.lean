import ModuleAudit.Text.Split

/-! # Command-line options

What the arguments of the command line ask for. Arguments are read one after the other, and the first that
cannot be understood rejects the command line.
-/

namespace ModuleAudit.CommandLine
set_option autoImplicit false

inductive Format where
  | text
  | json
  deriving Repr, DecidableEq

/-- What the command line asks for. -/
structure Options where
  progress : Bool := false
  print : Bool := false
  warn : Bool := false
  dryRun : Bool := false
  verbose : Bool := false
  /-- The roots to fix below, which may be left out, if fixing is asked for. -/
  fix : Option (List String) := none
  modulePath : List String := []
  config : Option String := none
  retain : List String := []
  format : Format := .text
  output : Option String := none
  deriving Repr, DecidableEq

/-- An option without a value. -/
inductive Flag where
  | progress
  | print
  | warn
  | dryRun
  | verbose
  | version
  | help
  deriving Repr, DecidableEq

inductive Valued where
  | fix
  | modulePath
  | config
  | retain
  | format
  | output
  deriving Repr, DecidableEq

inductive Named where
  | flag (flag : Flag)
  | valued (option : Valued)
  deriving Repr, DecidableEq

def ofLongName? (name : String) : Option Named :=
  [("progress", Named.flag .progress), ("print", .flag .print), ("warn", .flag .warn),
    ("dry-run", .flag .dryRun), ("verbose", .flag .verbose), ("version", .flag .version),
    ("help", .flag .help), ("fix", .valued .fix), ("module-path", .valued .modulePath),
    ("config", .valued .config), ("retain", .valued .retain), ("format", .valued .format),
    ("output", .valued .output)].lookup name

def ofShortName? (name : Char) : Option Named :=
  [('v', Named.flag .verbose), ('V', .flag .version), ('h', .flag .help), ('c', .valued .config),
    ('r', .valued .retain), ('f', .valued .format), ('o', .valued .output)].lookup name

/-! ## Values -/

/-- The paths of a value with commas between them, none of which may be empty. -/
def pathList? (value : String) : Option (List String) :=
  let parts := Text.splitOn ',' value.toList
  if parts.any List.isEmpty then none else some (parts.map String.ofList)

def path? (value : String) : Option String := if value = "" then none else some value

def format? (value : String) : Option Format :=
  match value with
  | "text" => some .text
  | "json" => some .json
  | _ => none

/-! ## Reading arguments -/

/-- What a command line comes to. -/
inductive Command where
  | run (options : Options)
  | version
  | help
  | rejected
  deriving Repr, DecidableEq

/-- The options read so far, and those of them that may be given only once. -/
structure Reading where
  options : Options := {}
  once : List Named := []

/-- The outcome of reading an option: more can be read, or the command is settled. -/
abbrev Step := Except Command Reading

namespace Reading

/-- Marks an option that may be given only once. -/
def mark (reading : Reading) (option : Named) : Step :=
  if option ∈ reading.once then .error .rejected else .ok { reading with once := option :: reading.once }

def setFlag (reading : Reading) (flag : Flag) : Step := do
  let reading ← reading.mark (.flag flag)
  let options := reading.options
  match flag with
  | .progress => return { reading with options := { options with progress := true } }
  | .print => return { reading with options := { options with print := true } }
  | .warn => return { reading with options := { options with warn := true } }
  | .dryRun => return { reading with options := { options with dryRun := true } }
  | .verbose => return { reading with options := { options with verbose := true } }
  | .version => throw .version
  | .help => throw .help

def needed {α : Type} : Option α → Except Command α
  | some value => .ok value
  | none => .error .rejected

def setValue (reading : Reading) (option : Valued) (value : String) : Step := do
  let options := reading.options
  match option with
  | .fix =>
    let paths ← needed (pathList? value)
    return { reading with options := { options with fix := some (options.fix.getD [] ++ paths) } }
  | .modulePath =>
    let paths ← needed (pathList? value)
    return { reading with options := { options with modulePath := options.modulePath ++ paths } }
  | .retain => return { reading with options := { options with retain := options.retain ++ [value] } }
  | .config =>
    let reading ← reading.mark (.valued .config)
    return { reading with options := { options with config := some (← needed (path? value)) } }
  | .format =>
    let reading ← reading.mark (.valued .format)
    return { reading with options := { options with format := ← needed (format? value) } }
  | .output =>
    let reading ← reading.mark (.valued .output)
    return { reading with options := { options with output := some (← needed (path? value)) } }

/-- Gives an option no value, which only fixing allows. -/
def setBare (reading : Reading) : Valued → Step
  | .fix => .ok { reading with options := { reading.options with fix := some (reading.options.fix.getD []) } }
  | _ => .error .rejected

end Reading

/-- Whether an argument can be the value of the option before it: it does not look like an option. -/
def isValue (argument : String) : Bool :=
  match argument.toList with
  | '-' :: _ :: _ => false
  | _ => true

/-- What an argument says: options with their values, and perhaps one that waits for its value. -/
structure Argument where
  reading : Reading
  waiting : Option Valued := none

/-- Reads a long option, with its value if there is an equals sign. -/
def readLong (reading : Reading) (argument : List Char) : Except Command Argument :=
  let (name, value) : List Char × Option String :=
    match Text.cutFirst '=' argument with
    | some (name, value) => (name, some (String.ofList value))
    | none => (argument, none)
  match ofLongName? (String.ofList name), value with
  | some (.flag flag), none => (reading.setFlag flag).map ({ reading := · })
  | some (.valued option), some value => (reading.setValue option value).map ({ reading := · })
  | some (.valued option), none => .ok { reading, waiting := some option }
  | some (.flag _), some _ | none, _ => .error .rejected

/-- Reads a row of short options, the last of which may have its value right after it. -/
def readShort (reading : Reading) : List Char → Except Command Argument
  | [] => .ok { reading }
  | name :: rest =>
    match ofShortName? name, rest with
    | some (.flag flag), _ =>
      match reading.setFlag flag with
      | .ok reading => readShort reading rest
      | .error command => .error command
    | some (.valued option), [] => .ok { reading, waiting := some option }
    | some (.valued option), '=' :: value =>
      (reading.setValue option (String.ofList value)).map ({ reading := · })
    | some (.valued option), value => (reading.setValue option (String.ofList value)).map ({ reading := · })
    | none, _ => .error .rejected

/-- Reads one argument. Arguments that are no options have no meaning. -/
def readArgument (reading : Reading) (argument : String) : Except Command Argument :=
  match argument.toList with
  | '-' :: '-' :: name => readLong reading name
  | '-' :: name :: names => readShort reading (name :: names)
  | _ => .error .rejected

/-- Reads the arguments, when an option may wait for its value. -/
def readAll (reading : Reading) (waiting : Option Valued) : List String → Command
  | [] =>
    match waiting with
    | some option =>
      match reading.setBare option with
      | .ok reading => .run reading.options
      | .error command => command
    | none => .run reading.options
  | argument :: rest =>
    let next (reading : Reading) : Command :=
      if argument = "--" then (if rest.isEmpty then .run reading.options else .rejected)
      else
        match readArgument reading argument with
        | .ok read => readAll read.reading read.waiting rest
        | .error command => command
    match waiting with
    | none => next reading
    | some option =>
      if isValue argument then
        match reading.setValue option argument with
        | .ok reading => readAll reading none rest
        | .error command => command
      else
        match reading.setBare option with
        | .ok reading => next reading
        | .error command => command

def Command.ofArguments (arguments : List String) : Command := readAll {} none arguments

end ModuleAudit.CommandLine
