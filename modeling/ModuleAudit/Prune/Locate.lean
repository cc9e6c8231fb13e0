import ModuleAudit.FileTree.Basic
import ModuleAudit.ModuleName
import ModuleAudit.Prune.FixError
import ModuleAudit.Repository.Disk

/-! # Finding the descriptor of a module

A module's descriptor is in the directory of its name below a root, or below the base layer of a root. A
module without a slot may have it in the directory of the default slot there.
-/

namespace ModuleAudit.Prune
set_option autoImplicit false

/-- Where the modules of a layered distribution are. -/
def baseLayer : String := "modules/system/layers/base"

/-- Where the descriptor of a module with such a directory may be below a root, in order. -/
def candidates (directory : String) (slotted : Bool) (root : String) : List String :=
  let plain := Path.join root directory
  let layered := Path.join (Path.join root baseLayer) directory
  let directories :=
    if slotted then [plain, layered]
    else
      [plain, Path.join plain ModuleName.defaultSlot, layered, Path.join layered ModuleName.defaultSlot]
  directories.map (Path.join · DiskRepository.descriptorFile)

/-- The path of a module's descriptor below the first root that has one. -/
def locate (tree : FileTree) (roots : List String) (module : String) : Except FixError String :=
  match ModuleName.directory? module with
  | none => .error (.invalidName module)
  | some names =>
    match (roots.flatMap (candidates (Text.join "/" names) (ModuleName.hasSlot module))).find? tree.isFile with
    | some path => .ok path
    | none => .error (.notFound module)

end ModuleAudit.Prune
