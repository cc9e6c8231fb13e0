import ModuleAudit.ClassFile.Descriptor
import ModuleAudit.ClassFile.Reader
import ModuleAudit.Index.NamePool
import ModuleAudit.Index.Records

/-! # From class files to records

Each event of a class file mentions types. A mention belongs to the members when it is a part of what the
class shows: its supertypes, the types of its public and protected fields, the signatures of its methods
that are neither static nor private, and the signatures of the methods it calls.
-/

namespace ModuleAudit
set_option autoImplicit false

open ClassFile

/-- A type and how it is mentioned, or what is wrong with the descriptor that should name it. -/
abbrev Mention := Except Failure (RefKind × String)

namespace Mention

def ofName (kind : RefKind) (name : String) : Mention := .ok (kind, name)

def ofDescriptor (kind : RefKind) (descriptor : String) : List Mention :=
  match descriptorClasses descriptor with
  | .ok names => names.map (ofName kind)
  | .error failure => [.error failure]

/-- The type of a class constant, which may be an array. -/
def ofClassConstant (kind : RefKind) (name : String) : List Mention :=
  match elementClass name with
  | .ok element => element.toList.map (ofName kind)
  | .error failure => [.error failure]

end Mention

def accPublic : Nat := 0x0001

def accPrivate : Nat := 0x0002

def accProtected : Nat := 0x0004

def accStatic : Nat := 0x0008

/-- How a field with these flags mentions its type. -/
def fieldKind (access : Nat) : RefKind :=
  if access &&& (accPublic ||| accProtected) ≠ 0 then .member else .other

/-- How a method with these flags mentions the types of its signature. -/
def methodKind (access : Nat) : RefKind :=
  if access &&& (accStatic ||| accPrivate) = 0 then .member else .other

/-- The types that an event mentions, in order. -/
def ClassFile.Event.mentions : Event → List Mention
  | .header _ _ superName interfaces =>
    superName.toList.map (Mention.ofName .member) ++ interfaces.map (Mention.ofName .member)
  | .field access _ descriptor => Mention.ofDescriptor (fieldKind access) descriptor
  | .method access _ descriptor => Mention.ofDescriptor (methodKind access) descriptor
  | .annotated _ descriptor => Mention.ofDescriptor .other descriptor
  | .classLiteral descriptor => Mention.ofDescriptor .other descriptor
  | .methodUse _ owner _ descriptor =>
    Mention.ofDescriptor .member descriptor ++ Mention.ofClassConstant .other owner
  | .typeUse _ type => Mention.ofClassConstant .other type
  | .fieldUse _ owner _ descriptor =>
    Mention.ofDescriptor .other descriptor ++ Mention.ofClassConstant .other owner
  | .dynamicCall _ descriptor => Mention.ofDescriptor .other descriptor
  | .arrayCreation descriptor _ => Mention.ofDescriptor .other descriptor
  | .load (.classRef name) => Mention.ofClassConstant .other name
  | .load (.methodType descriptor) => Mention.ofDescriptor .other descriptor
  | .load (.text _) => []
  | .load .other => []
  | .localVariable _ descriptor => Mention.ofDescriptor .other descriptor
  | .handler type => type.toList.map (Mention.ofName .other)

/-- A class record that events are being added to, and the first descriptor found wrong. -/
structure Ingestion where
  pool : NamePool
  record : ClassRecord
  fault : Option Failure := none

namespace Ingestion

/-- Counts a mention, or keeps the first fault. -/
def mention (state : Ingestion) : Mention → Ingestion
  | .ok (kind, name) =>
    { state with pool := state.pool.addPath name, record := state.record.mention kind (slashed name) }
  | .error failure => { state with fault := state.fault.or (some failure) }

/-- Adds what an event says beyond the types it mentions. -/
def note (state : Ingestion) : Event → Ingestion
  | .header _ name superName interfaces =>
    { state with
      pool := state.pool.addPath name
      record := { state.record with
        name := some (slashed name)
        superName := superName.map slashed
        interfaceNames := interfaces.map slashed } }
  | .load (.text text) => { state with pool := state.pool.addLiteral text }
  | _ => state

def add (state : Ingestion) (event : Event) : Ingestion :=
  (event.mentions.foldl mention state).note event

end Ingestion

/-- The record of a class file for a module, and the pool with the names met on the way. The failure of the
file itself comes before that of a descriptor in it. -/
def ingest (pool : NamePool) (module : ModuleId) (bytes : Bytes) : NamePool × Except Failure ClassRecord :=
  let reading := ClassFile.read bytes
  let state := reading.events.foldl Ingestion.add { pool, record := { module } }
  match reading.failure.or state.fault with
  | some failure => (state.pool, .error failure)
  | none => (state.pool, .ok state.record)

end ModuleAudit
