import ModuleAudit.Settings.Yaml.Document

/-! # Settings in YAML

The settings are the entries of the only document of a text. A key without a value has an empty list, and so
has a text without a document.
-/

namespace ModuleAudit.Yaml
set_option autoImplicit false

def entries? (text : String) : Option (List (String × List String)) := do
  let (entries, _) ← Reader.document { tokens := ← tokens? text }
  entries.mapM fun entry => do
    return (← textOf? entries entry.key.node, ← textsOf? entries entry.value.node)

end ModuleAudit.Yaml
