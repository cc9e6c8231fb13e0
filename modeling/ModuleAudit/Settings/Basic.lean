/-! # Settings

What a settings file can set: three lists of texts. A file gives entries, and an entry that is unknown or
given twice makes the file invalid.
-/

namespace ModuleAudit
set_option autoImplicit false

structure Settings where
  /-- The roots of the repository, in order. -/
  modulePath : List String := []
  /-- The roots below which descriptors are fixed. -/
  fixPaths : List String := []
  /-- Patterns of the names of modules that are never reported as unused. -/
  retain : List String := []
  deriving Repr, DecidableEq

namespace Settings

def keys : List String := ["module_path", "fix_paths", "retain"]

def valuesOf (entries : List (String × List String)) (key : String) : List String :=
  (entries.lookup key).getD []

/-- The settings that entries give, if each is known and given once. -/
def ofEntries? (entries : List (String × List String)) : Option Settings :=
  let given := entries.map Prod.fst
  if given.all keys.contains ∧ given.eraseDups.length = given.length then
    some
      { modulePath := valuesOf entries "module_path"
        fixPaths := valuesOf entries "fix_paths"
        retain := valuesOf entries "retain" }
  else none

end Settings

end ModuleAudit
