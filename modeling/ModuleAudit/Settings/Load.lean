import ModuleAudit.FileTree.Basic
import ModuleAudit.Log
import ModuleAudit.Settings.Basic
import ModuleAudit.Settings.Toml
import ModuleAudit.Settings.Yaml

/-! # Loading settings

Settings come from a file, in YAML if its extension says so and in TOML otherwise. Without a given file the
first of the usual ones is taken.
-/

namespace ModuleAudit
set_option autoImplicit false

/-- Why settings could not be loaded. -/
inductive SettingsError where
  | unreadable (path : String)
  | badToml (path : String)
  | badYaml (path : String)
  deriving Repr, DecidableEq

namespace Settings

def isYaml (path : String) : Bool :=
  Path.extension? path = some "yml" || Path.extension? path = some "yaml"

/-- The settings that the text of the file at a path gives. -/
def parse (path text : String) : Except SettingsError Settings :=
  if isYaml path then
    match (Yaml.entries? text).bind ofEntries? with
    | some settings => .ok settings
    | none => .error (.badYaml path)
  else
    match (Toml.entries? text).bind ofEntries? with
    | some settings => .ok settings
    | none => .error (.badToml path)

def load (tree : FileTree) (path : String) : Except SettingsError Settings :=
  match tree.readText? path with
  | some text => parse path text
  | none => .error (.unreadable path)

/-- The names of settings files, in the order in which they are looked for. -/
def usualNames : List String :=
  ["deptool.toml", ".deptool.toml", "deptool.yml", "deptool.yaml", ".deptool.yml", ".deptool.yaml"]

/-- The path of the first settings file in a directory. -/
def usualPath? (tree : FileTree) (directory : String) : Option String :=
  (usualNames.map (Path.join directory)).find? tree.isFile

/-- What there is to say about loading settings from a path. -/
def loadingMessage (path : String) : Message := .debug s!"Loading config from {path}"

/-- The settings in the first settings file of a directory, or else the default ones. -/
def loadUsual (tree : FileTree) (directory : String) : Log × Except SettingsError Settings :=
  match usualPath? tree directory with
  | some path => ([loadingMessage path], load tree path)
  | none => ([], .ok {})

end Settings

end ModuleAudit
