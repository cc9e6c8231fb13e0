import ModuleAudit.Audit.Report
import ModuleAudit.Audit.UnusedModules
import ModuleAudit.CommandLine.Options
import ModuleAudit.Index.Build
import ModuleAudit.Pattern.Parse
import ModuleAudit.Prune.Fix
import ModuleAudit.Repository.Disk
import ModuleAudit.Settings.Load

/-! # Runs of the program

A run reads the repository, looks for unused dependencies, fixes descriptors if it is asked to, looks for
unused modules, and reports. What it does to files and prints is a function of the arguments, the files and
the module path of the environment.
-/

namespace ModuleAudit.CommandLine
set_option autoImplicit false

/-- What surrounds a run. -/
structure Environment where
  tree : FileTree
  /-- The name of the working directory, in which the usual settings files are looked for. -/
  workingDirectory : String := ""
  /-- The module path that the environment gives. -/
  modulePath : Option String := none

/-- What a run comes to. -/
structure Outcome where
  exitCode : Nat
  output : String := ""
  /-- The lines on the error stream. -/
  errors : List String := []
  tree : FileTree

def version : String := "0.1.0"

/-! ## Settings -/

/-- The settings files of the working directory, or the one that was asked for. -/
def baseSettings (environment : Environment) (options : Options) : Log × Except SettingsError Settings :=
  match options.config with
  | some path => ([], Settings.load environment.tree path)
  | none =>
    match Settings.usualPath? environment.tree "." with
    | none => ([], .ok {})
    | some path =>
      let shown := Path.join environment.workingDirectory (String.ofList (Path.fileName path))
      ([Settings.loadingMessage shown], Settings.load environment.tree path)

/-- The roots of the repository when neither arguments nor settings name any. -/
def defaultModulePath : Option String → List String
  | some paths => (Text.splitOn ':' paths.toList).map String.ofList
  | none => ["modules"]

/-- Settings with what the arguments say in addition or instead. -/
def Options.override (options : Options) (environment : Environment) (settings : Settings) : Settings :=
  let modulePath := if options.modulePath.isEmpty then settings.modulePath else options.modulePath
  let fixPaths := if (options.fix.getD []).isEmpty then settings.fixPaths else options.fix.getD []
  let modulePath := if modulePath.isEmpty then defaultModulePath environment.modulePath else modulePath
  { modulePath
    fixPaths := if fixPaths.isEmpty then modulePath else fixPaths
    retain := settings.retain ++ options.retain }

/-! ## Output -/

def Options.shows (options : Options) (level : Level) : Bool :=
  options.verbose || (options.warn && level == .warning)

/-- The messages that a run shows. -/
def Options.shown (options : Options) (log : Log) : List String :=
  (log.filter fun message => options.shows message.level).map Message.shown

def Options.emits (options : Options) : Bool :=
  options.print || (options.format = .json && options.output.isSome)

/-- What a run has printed, and the files as it leaves them. -/
structure Progress where
  output : String := ""
  errors : List String := []
  tree : FileTree
  /-- Whether the run broke off. -/
  isBroken : Bool := false

namespace Progress

/-- The outcome of a run that ends here. -/
def finish (progress : Progress) (exitCode : Nat) : Outcome :=
  { exitCode, output := progress.output, errors := progress.errors, tree := progress.tree }

/-- Prints texts on the error stream, each followed by a line end. -/
def note (progress : Progress) (texts : List String) : Progress :=
  let lines := texts.flatMap fun text => (Text.lines (text.toList ++ ['\n'])).map String.ofList
  { progress with errors := progress.errors ++ lines }

def print (progress : Progress) (text : String) : Progress :=
  { progress with output := progress.output ++ text }

/-- Reports unused dependencies, which only text does at once. -/
def reportDependencies (options : Options) (unused : UnusedDependencies) (progress : Progress) : Progress :=
  if options.emits && options.format == .text then progress.print (Report.dependencyLines unused) else progress

/-- Fixes descriptors, if it is asked for. -/
def fix (options : Options) (settings : Settings) (unused : UnusedDependencies) (progress : Progress) :
    Progress :=
  if options.fix.isSome then
    if unused.findings.isEmpty then progress.note (options.shown [.info "Nothing to fix"])
    else
      let fixing := Prune.fix progress.tree settings.fixPaths options.dryRun unused
      let progress := { progress with tree := fixing.tree, isBroken := fixing.isBroken }
      let lines := if fixing.isBroken then [] else fixing.summary.lines
      progress.note (options.shown fixing.log ++ lines)
  else if options.dryRun then
    progress.note (options.shown [.warning "--dry-run has no effect without --fix"])
  else progress

def writeReport (path report : String) (progress : Progress) : Option Progress :=
  (progress.tree.write? path (Utf8.bytesOf report)).map fun tree =>
    { progress with tree }.note [s!"Report written to {path}"]

/-- Reports what was found, unless the report cannot be written. -/
def report (options : Options) (findings : Findings) (progress : Progress) : Option Progress :=
  if options.emits then
    match options.format, options.output with
    | .text, _ => some (progress.print (Report.moduleLines findings.modules))
    | .json, none => some (progress.print (Report.json findings ++ "\n"))
    | .json, some path => progress.writeReport path (Report.json findings ++ "\n")
  else some progress

end Progress

/-! ## The run -/

/-- What there is to say about a finished index. -/
def indexedMessage (stats : BuildStats) : Message :=
  .info (s!"Indexed {stats.modules} modules ({stats.aliases} aliases, {stats.classes} classes, " ++
    s!"{stats.failedClasses} unreadable)")

/-- The code with which a run that broke off ends. -/
def brokenExitCode : Nat := 101

def audit (options : Options) (settings : Settings) (retain : List Pattern) (progress : Progress) : Outcome :=
  let (scanLog, repository) := DiskRepository.scan progress.tree settings.modulePath
  let build := Build.run (DiskRepository.findings progress.tree repository)
  let index := build.index
  let unused := index.unusedDependencies
  let modules := index.unusedModules retain
  let log := scanLog ++ build.log ++ [indexedMessage build.stats] ++ index.unusedDependenciesLog
  let progress := progress.note (options.shown log)
  let progress := (progress.reportDependencies options unused).fix options settings unused
  if progress.isBroken then progress.finish brokenExitCode
  else
    let progress := progress.note (options.shown (index.unusedModulesLog retain))
    match progress.report options { dependencies := unused, modules } with
    | some progress => progress.finish 0
    | none => progress.finish 1

def runWith (environment : Environment) (options : Options) : Outcome :=
  let progress : Progress := { tree := environment.tree }
  let progress := progress.note (options.shown [.info s!"deptool v{version}"])
  let (log, base) := baseSettings environment options
  let progress := progress.note (options.shown log)
  match base with
  | .error _ => progress.finish 1
  | .ok base =>
    let settings := options.override environment base
    match Pattern.parseAll settings.retain with
    | .error _ => progress.finish 1
    | .ok retain => audit options settings retain progress

/-- The paths that a run with arguments starts from. -/
def pathsOf (environment : Environment) (arguments : List String) : List String :=
  match Command.ofArguments arguments with
  | .run options =>
    match (baseSettings environment options).2 with
    | .ok base =>
      let settings := options.override environment base
      settings.modulePath ++ settings.fixPaths
    | .error _ => []
  | .version | .help | .rejected => []

def usage : String :=
  "Usage: deptool [OPTIONS]\n\n" ++
    "      --print                Print unused dependencies and unused modules\n" ++
    "      --fix[=PATHS]          Remove unused dependencies from descriptors\n" ++
    "      --dry-run              Report what would be removed without writing\n" ++
    "      --module-path <PATHS>  Roots of the repository, separated by commas\n" ++
    "  -c, --config <PATH>        Settings file\n" ++
    "  -r, --retain <PATTERN>     Names of modules that are never unused\n" ++
    "  -f, --format <FORMAT>      text or json\n" ++
    "  -o, --output <PATH>        File for the json report\n" ++
    "      --progress             Show progress\n" ++
    "      --warn                 Print warnings\n" ++
    "  -v, --verbose              Print all messages\n" ++
    "  -V, --version              Print the version\n"

def run (environment : Environment) (arguments : List String) : Outcome :=
  match Command.ofArguments arguments with
  | .run options => runWith environment options
  | .version => { exitCode := 0, output := s!"deptool {version}\n", tree := environment.tree }
  | .help => { exitCode := 0, output := usage, tree := environment.tree }
  | .rejected => { exitCode := 2, tree := environment.tree }

end ModuleAudit.CommandLine
