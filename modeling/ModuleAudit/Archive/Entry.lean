import ModuleAudit.Archive.Checksum
import ModuleAudit.Text.CodePage437
import ModuleAudit.Text.Utf8

/-! # Entries of an archive

An entry of the directory of an archive is a record of fixed size, a name, extra fields and a comment. An
extra field has a kind and a length, and some kinds change the entry: wide sizes and places, a name or a
comment in UTF-8, a cipher. Extra fields that are cut short end the fields; others that are wrong make the
directory unreadable.
-/

namespace ModuleAudit.Archive
set_option autoImplicit false

/-- The little-endian number in the bytes at an offset. -/
def numberAt (bytes : Bytes) (offset width : Nat) : Nat := Bytes.littleEndian ((bytes.drop offset).take width)

structure Entry where
  name : String
  /-- The bytes of the name. -/
  rawName : Bytes
  comment : String
  method : Nat
  encrypted : Bool
  /-- Whether an extra field describes the cipher of its data. -/
  hasCipher : Bool := false
  checksum : Nat
  size : Nat
  compressedSize : Nat
  /-- Where its local header stands. -/
  header : Nat
  symbolicLink : Bool
  deriving Repr, DecidableEq

namespace Entry

def isDirectory (entry : Entry) : Bool :=
  match entry.name.toList.getLast? with
  | some c => c == '/' || c == '\\'
  | none => false

/-- Whether the entry is a file with contents of its own. -/
def isFile (entry : Entry) : Bool := !entry.isDirectory && !entry.symbolicLink

end Entry

/-! ## Extra fields -/

/-- Why extra fields cannot be read further. -/
inductive ExtraFault where
  /-- There are fewer bytes than a field says, and the rest does not count. -/
  | cutShort
  /-- A field is not as its kind demands. -/
  | broken
  deriving Repr, DecidableEq

/-- An entry that is being read, with the extra bytes that are not read yet. -/
structure ExtraState where
  entry : Entry
  unread : Bytes

/-- A reader of extra fields, which keeps what it has changed when it fails. -/
abbrev ExtraReader := ExceptT ExtraFault (StateM ExtraState)

namespace ExtraReader

def take (n : Nat) : ExtraReader Bytes := do
  let state ← get
  if state.unread.length < n then throw .cutShort
  set { state with unread := state.unread.drop n }
  return state.unread.take n

def number (n : Nat) : ExtraReader Nat := do return (← take n).littleEndian

def skip (n : Nat) : ExtraReader Unit := do
  let _ ← take n

def change (f : Entry → Entry) : ExtraReader Unit := modify fun state => { state with entry := f state.entry }

/-- Fails unless a condition holds. -/
def demand (condition : Bool) : ExtraReader Unit := if condition then pure () else throw .broken

end ExtraReader

open ExtraReader

/-- The value of a number that does not fit into its four bytes and stands in a field for wide numbers. -/
def narrowLimit : Nat := 0xFFFFFFFF

/-- Reads a wide number if it is `wanted` and gives the number of bytes it takes. -/
def readWide (wanted : Bool) (store : Nat → Entry → Entry) : ExtraReader Nat := do
  if wanted then
    change (store (← number 8))
    return 8
  else return 0

/-- Reads wide numbers: those that did not fit, or all of them if the field has the space. -/
def readWideNumbers (length : Nat) : ExtraReader Unit := do
  let all := decide (24 ≤ length)
  let size ← readWide (all || (← get).entry.size = narrowLimit) fun n entry => { entry with size := n }
  let compressed ← readWide (all || (← get).entry.compressedSize = narrowLimit) fun n entry =>
    { entry with compressedSize := n }
  let header ← readWide (all || (← get).entry.header = narrowLimit) fun n entry => { entry with header := n }
  let used := size + compressed + header
  demand (used ≤ length)
  skip (length - used)

/-- Reads file times in units of a hundred nanoseconds: three of them, in one attribute. -/
def readFineTimes (length : Nat) : ExtraReader Unit := do
  demand (length = 32)
  skip 4
  demand ((← number 2) = 1)
  demand ((← number 2) = 24)
  skip 24

/-- Reads file times in seconds: one for each of the three flags, or the first one only. -/
def readTimes (length : Nat) : ExtraReader Unit := do
  let flags ← number 1
  let count := ((List.range 3).filter flags.testBit).length
  demand (flags < 8 && (length = 5 || length = 1 + 4 * count))
  skip (length - 1)

/-- Reads a text that replaces the one with the bytes `old`, whose checksum the field holds. -/
def readReplacement (length : Nat) (old : Bytes) : ExtraReader (Bytes × String) := do
  skip 1
  let check ← number 4
  demand (5 ≤ length)
  let content ← take (length - 5)
  demand (check = checksum old)
  match Utf8.decode? content with
  | some text => return (content, text)
  | none => throw .broken

def readName (length : Nat) : ExtraReader Unit := do
  let (rawName, name) ← readReplacement length (← get).entry.rawName
  change fun entry => { entry with rawName, name }

def readComment (length : Nat) : ExtraReader Unit := do
  let (_, comment) ← readReplacement length (Utf8.bytesOf (← get).entry.comment)
  change fun entry => { entry with comment }

/-- Reads the description of a cipher, and the method of the data behind it. -/
def readCipher (length : Nat) : ExtraReader Unit := do
  demand (length = 7)
  let version ← number 2
  let vendor ← number 2
  let strength ← number 1
  let method ← number 2
  demand (vendor = 0x4541 && 1 ≤ version && version ≤ 2 && 1 ≤ strength && strength ≤ 3)
  change fun entry => { entry with method, hasCipher := true }

def readField : ExtraReader Unit := do
  let kind ← number 2
  let length ← number 2
  match kind with
  | 0x0001 => readWideNumbers length
  | 0x000A => readFineTimes length
  | 0x5455 => readTimes length
  | 0x6375 => readComment length
  | 0x7075 => readName length
  | 0x9901 => readCipher length
  | _ => skip length

/-- Reads extra fields into an entry. There is room for as many fields as there are bytes. -/
def withExtra : Nat → ExtraState → Option Entry
  | 0, state => some state.entry
  | room + 1, state =>
    if state.unread.isEmpty then some state.entry
    else
      match readField.run.run state with
      | (.ok (), state) => withExtra room state
      | (.error .cutShort, state) => some state.entry
      | (.error .broken, _) => none

/-! ## Directory records -/

def directoryMark : Bytes := [0x50, 0x4B, 0x01, 0x02]

/-- The method of an entry whose data are encrypted by a cipher that an extra field describes. -/
def cipherMethod : Nat := 99

/-- Whether attributes that a host of some kind gave are those of a symbolic link. -/
def isSymbolicLink (madeBy attributes : Nat) : Bool :=
  madeBy / 256 == 3 && (attributes >>> 16) &&& 0xA000 == 0xA000

/-- Reads an entry of the directory, when places are shifted by `shift`, and gives the rest. -/
def readEntry? (shift : Nat) (bytes : Bytes) : Option (Entry × Bytes) := do
  let nameLength := numberAt bytes 28 2
  let extraLength := numberAt bytes 30 2
  let commentLength := numberAt bytes 32 2
  let size := 46 + nameLength + extraLength + commentLength
  guard (directoryMark.isPrefixOf bytes ∧ size ≤ bytes.length)
  let flags := numberAt bytes 8 2
  let decode (raw : Bytes) : String := if flags.testBit 11 then Utf8.lossy raw else CodePage437.decode raw
  let rawName := (bytes.drop 46).take nameLength
  let extra := (bytes.drop (46 + nameLength)).take extraLength
  let entry ← withExtra extra.length
    { entry :=
        { name := decode rawName
          rawName
          comment := decode ((bytes.drop (46 + nameLength + extraLength)).take commentLength)
          method := numberAt bytes 10 2
          encrypted := flags.testBit 0
          checksum := numberAt bytes 16 4
          compressedSize := numberAt bytes 20 4
          size := numberAt bytes 24 4
          header := numberAt bytes 42 4
          symbolicLink := isSymbolicLink (numberAt bytes 4 2) (numberAt bytes 38 4) }
      unread := extra }
  guard (entry.method = cipherMethod → entry.hasCipher)
  guard (entry.header + shift < 0x10000000000000000)
  return ({ entry with header := entry.header + shift }, bytes.drop size)

def readEntries? (shift : Nat) : Nat → Bytes → Option (List Entry)
  | 0, _ => some []
  | n + 1, bytes => do
    let (entry, rest) ← readEntry? shift bytes
    return entry :: (← readEntries? shift n rest)

end ModuleAudit.Archive
