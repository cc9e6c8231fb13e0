import ModuleAudit.Archive.Entry
import ModuleAudit.Archive.Inflate
import ModuleAudit.Ordered.Map

/-! # Zip archives

An archive ends with a record that says where its directory is, and how many entries it has. The directory
lists the entries, each with the place of its data. The archive may stand after other bytes, by which all
places are then shifted. Numbers too great for the last record stand in a wide one before it, which a
locator in front of the last record points to.
-/

namespace ModuleAudit.Archive
set_option autoImplicit false

/-! ## Marks -/

/-- The mark in front of the contents of an entry. -/
def localMark : Bytes := [0x50, 0x4B, 0x03, 0x04]

def endMark : Bytes := [0x50, 0x4B, 0x05, 0x06]

/-- The mark of the wide form of that record. -/
def wideEndMark : Bytes := [0x50, 0x4B, 0x06, 0x06]

/-- The mark of the locator of the wide form. -/
def locatorMark : Bytes := [0x50, 0x4B, 0x06, 0x07]

/-- The offsets at which `mark` stands, when the bytes start at an offset. -/
def marksFrom (mark : Bytes) : Nat → Bytes → List Nat
  | _, [] => []
  | offset, byte :: rest =>
    let later := marksFrom mark (offset + 1) rest
    if mark.isPrefixOf (byte :: rest) then offset :: later else later

/-- The offsets from `low` on at which `mark` stands and ends before `high`. -/
def marksBetween (mark bytes : Bytes) (low high : Nat) : List Nat :=
  marksFrom mark low ((bytes.take high).drop low)

/-! ## The directory -/

/-- Where the directory of an archive is and what it holds. -/
structure Directory where
  /-- By how much places are shifted. -/
  shift : Nat
  /-- Where the directory starts, before the shift. -/
  place : Nat
  count : Nat
  /-- The volume of the record at the end. -/
  volume : Nat
  /-- The volume on which the directory starts. -/
  firstVolume : Nat
  deriving Repr, DecidableEq

structure EndRecord where
  position : Nat
  volume : Nat
  firstVolume : Nat
  /-- The number of entries on this volume. -/
  countHere : Nat
  count : Nat
  place : Nat
  deriving Repr, DecidableEq

namespace EndRecord

/-- The record at a position, unless it is cut short. -/
def at? (bytes : Bytes) (position : Nat) : Option EndRecord :=
  let record := bytes.drop position
  if record.length < 22 + numberAt record 20 2 then none
  else
    some
      { position
        volume := numberAt record 4 2
        firstVolume := numberAt record 6 2
        countHere := numberAt record 8 2
        count := numberAt record 10 2
        place := numberAt record 16 4 }

def directory (record : EndRecord) (shift : Nat) : Directory :=
  ⟨shift, record.place, record.countHere, record.volume, record.firstVolume⟩

/-- The directory by a record of its own: the first directory mark from its place on shows the shift. -/
def narrowDirectory? (bytes : Bytes) (record : EndRecord) : Option Directory :=
  if record.count = 0 then some (record.directory (record.position - record.place))
  else
    (marksBetween directoryMark bytes record.place record.position).head?.map fun first =>
      record.directory (first - record.place)

/-- Whether numbers of the record may stand in a wide record. -/
def mayBeWide (record : EndRecord) : Bool := record.count = 0xFFFF || record.place = narrowLimit

end EndRecord

/-- What leads from the last record to its wide form. -/
structure Locator where
  position : Nat
  /-- The volume on which the directory starts. -/
  firstVolume : Nat
  /-- Where the wide record stands, before the shift. -/
  place : Nat
  volumes : Nat
  deriving Repr, DecidableEq

/-- The locator in front of a record at the end. -/
def Locator.before? (bytes : Bytes) (record : EndRecord) : Option Locator :=
  let locator := bytes.drop (record.position - 20)
  if 20 ≤ record.position ∧ record.mayBeWide ∧ locatorMark.isPrefixOf locator then
    some ⟨record.position - 20, numberAt locator 4 4, numberAt locator 8 8, numberAt locator 16 4⟩
  else none

/-- The directory by the wide record at a position, which reaches up to its locator and agrees with it. -/
def Locator.directoryAt? (bytes : Bytes) (locator : Locator) (position : Nat) : Option Directory :=
  let record := bytes.drop position
  let length := numberAt record 4 8
  let firstVolume := numberAt record 20 4
  let count := numberAt record 32 8
  let place := numberAt record 48 8
  if 44 ≤ length ∧ length + 12 = locator.position - position ∧ firstVolume = locator.firstVolume ∧
      count * 46 + place ≤ position then
    some ⟨position - locator.place, place, count, numberAt record 16 4, firstVolume⟩
  else none

/-- Whether the wide record at a position says that its reader is no older than its writer, and that there
are no more entries here than in all. -/
def isSoundWideRecord (bytes : Bytes) (position : Nat) : Bool :=
  let record := bytes.drop position
  numberAt record 24 8 ≤ numberAt record 32 8 && numberAt record 14 2 ≤ numberAt record 12 2

/-- The directory by the first wide record that its locator can mean. -/
def Locator.directory? (bytes : Bytes) (locator : Locator) : Option Directory := do
  guard (locator.volumes ≤ 1)
  let (position, directory) ← (marksBetween wideEndMark bytes locator.place locator.position).findSome?
    fun position => (locator.directoryAt? bytes position).map fun directory => (position, directory)
  guard (isSoundWideRecord bytes position)
  return directory

def directoryBy? (bytes : Bytes) (position : Nat) : Option Directory := do
  let record ← EndRecord.at? bytes position
  match Locator.before? bytes record with
  | some locator => locator.directory? bytes
  | none => record.narrowDirectory? bytes

/-- The entries of a directory, which has to be on one volume. -/
def Directory.entries? (bytes : Bytes) (directory : Directory) : Option (List Entry) :=
  if directory.volume = directory.firstVolume then
    readEntries? directory.shift directory.count (bytes.drop (directory.place + directory.shift))
  else none

/-- The entries of an archive by name, in the order of the directory; of entries with one name the last
counts, in the place of the first. The directory is the one by the last record that leads to one. -/
def entries? (bytes : Bytes) : Option (List Entry) := do
  let entries ← (marksFrom endMark 0 bytes).reverse.findSome? fun position =>
    (directoryBy? bytes position).bind (·.entries? bytes)
  return (OrderedMap.ofList (entries.map fun entry => (entry.name, entry))).entries.map Prod.snd

/-! ## Contents -/

/-- The method of data that stand as they are. -/
def storedMethod : Nat := 0

def deflatedMethod : Nat := 8

/-- The data of an entry as they stand in the archive, if they can be read. -/
def rawData? (bytes : Bytes) (entry : Entry) : Option Bytes :=
  let header := bytes.drop entry.header
  if entry.encrypted ∨ entry.hasCipher ∨ ¬ localMark.isPrefixOf header ∨ header.length < 30 then none
  else if entry.method = storedMethod ∨ entry.method = deflatedMethod then
    some ((header.drop (30 + numberAt header 26 2 + numberAt header 28 2)).take entry.compressedSize)
  else none

/-- The contents for the data of an entry, or why there are none. -/
def contents (entry : Entry) (raw : Bytes) : Except String Bytes :=
  match if entry.method = storedMethod then some raw else inflate? raw with
  | none => .error "corrupt deflate stream"
  | some bytes => if checksum bytes = entry.checksum then .ok bytes else .error "Invalid checksum"

end ModuleAudit.Archive
