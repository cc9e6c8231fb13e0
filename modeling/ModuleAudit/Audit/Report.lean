import ModuleAudit.Audit.UnusedDependencies

/-! # Reports

The findings of an audit as lines of text and as a JSON document.
-/

namespace ModuleAudit
set_option autoImplicit false

/-- All that an audit has found. -/
structure Findings where
  dependencies : UnusedDependencies := {}
  modules : List String := []
  deriving Repr, DecidableEq

namespace Report

/-! ## Text -/

def dependencyLines (unused : UnusedDependencies) : String :=
  String.join (unused.findings.map fun finding =>
    s!"Unused dependency from \"{finding.module}\" to \"{finding.dependency}\"\n")

def moduleLines (modules : List String) : String :=
  String.join (modules.map fun name => s!"Unused module \"{name}\"\n") ++
    s!"Found {modules.length} unused modules\n"

/-! ## JSON -/

/-- A hexadecimal digit in lower case. -/
def hexDigit (n : Nat) : Char := if n < 10 then Char.ofNat (48 + n) else Char.ofNat (87 + n)

/-- A character inside a JSON string. Quotes, backslashes and control characters are escaped. -/
def jsonChar (c : Char) : List Char :=
  if c = '"' then ['\\', '"']
  else if c = '\\' then ['\\', '\\']
  else if c = '\n' then ['\\', 'n']
  else if c = '\r' then ['\\', 'r']
  else if c = '\t' then ['\\', 't']
  else if c.toNat = 8 then ['\\', 'b']
  else if c.toNat = 12 then ['\\', 'f']
  else if c.toNat < 32 then ['\\', 'u', '0', '0', hexDigit (c.toNat / 16), hexDigit (c.toNat % 16)]
  else [c]

def jsonString (text : String) : String := "\"" ++ String.ofList (text.toList.flatMap jsonChar) ++ "\""

/-- Items as an indented JSON list, each on lines of its own. -/
def jsonList (items : List String) : String :=
  if items.isEmpty then "[]" else "[\n" ++ Text.join ",\n" (items.map ("    " ++ ·)) ++ "\n  ]"

def jsonFinding (finding : UnusedDependency) : String :=
  "\x7b\n      \"module\": " ++ jsonString finding.module ++
    ",\n      \"dependency\": " ++ jsonString finding.dependency ++ "\n    \x7d"

def json (findings : Findings) : String :=
  "\x7b\n  \"unused_dependencies\": " ++ jsonList (findings.dependencies.findings.map jsonFinding) ++
    ",\n  \"unused_modules\": " ++ jsonList (findings.modules.map jsonString) ++
    ",\n  \"unused_module_count\": " ++ toString findings.modules.length ++ "\n\x7d"

end Report

end ModuleAudit
