import ModuleAudit.Index.Basic
import ModuleAudit.Log

/-! # Supertypes

The names of a class's supertype and interfaces are linked to the classes they mean in its module. A class
is compiled against all that its ancestors show, so their members' references are references of its module
too.
-/

namespace ModuleAudit
set_option autoImplicit false

namespace Index

/-- The links of a class and how many of them are new; the link to the supertype always counts as new. -/
def linkClass (index : Index) (record : ClassRecord) : ClassRecord × Nat :=
  let superLink := record.superName.bind (index.visibleClass? record.module)
  let links := record.interfaceNames.filterMap (index.visibleClass? record.module)
  let interfaceLinks := record.interfaceLinks.insertAll links
  ({ record with superLink, interfaceLinks },
    superLink.toList.length + (interfaceLinks.size - record.interfaceLinks.size))

/-- Links every class, and counts the links. -/
def linkSupertypes (index : Index) : Index × Nat :=
  let linked := index.classes.map index.linkClass
  ({ index with classes := linked.map Prod.fst }, (linked.toList.map Prod.snd).foldl (· + ·) 0)

/-- What there is to say when classes have been linked. -/
def linkMessage (links : Nat) : Message := .debug s!"Resolved {links} class links"

/-- The classes that a class is linked to. -/
def parentsOf (index : Index) (id : ClassId) : List ClassId :=
  (index.classes[id]?.map (·.parents)).getD []

/-- The classes met in a depth-first walk from `pending`, each once and only if it is still in `left`. -/
def walk (parents : ClassId → List ClassId) (left pending : List ClassId) : List ClassId :=
  match pending with
  | [] => []
  | id :: pending =>
    if _fresh : id ∈ left then id :: walk parents (left.erase id) (parents id ++ pending)
    else walk parents left pending
termination_by (left.length, pending.length)
decreasing_by
  · have shorter := List.length_erase_of_mem _fresh
    have some := List.length_pos_of_mem _fresh
    exact Prod.Lex.left _ _ (by omega)
  · exact Prod.Lex.right _ (by simp)

/-- The proper ancestors of a class: its supertype and that one's ancestors before its interfaces. -/
def ancestors (index : Index) (id : ClassId) : List ClassId :=
  walk index.parentsOf ((List.range index.classes.size).erase id) (index.parentsOf id)

/-- The types that the members of a class mention. -/
def memberRefsOf (index : Index) (id : ClassId) : List String :=
  (index.classes[id]?.map (·.memberRefs.keys)).getD []

/-- The types that the members of a class's ancestors mention. -/
def inheritedRefs (index : Index) (id : ClassId) : List String :=
  (index.ancestors id).flatMap index.memberRefsOf

/-- Makes the module of a class refer to what the class inherits. -/
def inheritClass (index : Index) (id : ClassId) : Index :=
  match index.classes[id]? with
  | some record =>
    (index.inheritedRefs id).foldl (fun index name => index.refer record.module name 1) index
  | none => index

/-- Makes every module refer to what its classes inherit. -/
def inheritAll (index : Index) : Index :=
  (List.range index.classes.size).foldl inheritClass index

end Index

end ModuleAudit
