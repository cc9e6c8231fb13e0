import ModuleAudit.Bytes

/-! # Inflating

Decoding a compressed stream: blocks of stored bytes, or of literals and references to bytes before, in a
fixed prefix code or in one that the block describes. The stream has to go on up to its last block; what
follows that block is left alone. References that reach back before the first byte find zeros there.
-/

namespace ModuleAudit.Archive
set_option autoImplicit false

/-- A reader of bits, which fails when the bits are no stream or there are too few. -/
abbrev BitReader := StateT (List Bool) Option

/-- The bits of a byte, lowest first. -/
def bitsOfByte (byte : UInt8) : List Bool := (List.range 8).map fun i => byte.toNat.testBit i

def takeBit : BitReader Bool
  | [] => none
  | bit :: bits => some (bit, bits)

/-- A number of so many bits, lowest first. -/
def takeNumber : Nat → BitReader Nat
  | 0 => pure 0
  | n + 1 => do
    let bit ← takeBit
    return (← takeNumber n) * 2 + bit.toNat

/-- So many numbers of three bits. -/
def takeTriples : Nat → BitReader (List Nat)
  | 0 => pure []
  | n + 1 => do
    let first ← takeNumber 3
    return first :: (← takeTriples n)

/-! ## Prefix codes -/

/-- A canonical prefix code: the number of codes of each length from one bit on, and the symbols in the
order of their codes. -/
structure PrefixCode where
  counts : List Nat
  symbols : List Nat
  deriving Repr, DecidableEq

namespace PrefixCode

def maxLength : Nat := 15

/-- The symbols whose code has a length. -/
def symbolsOf (lengths : List Nat) (length : Nat) : List Nat :=
  (lengths.zipIdx.filter fun (l, _) => l = length).map Prod.snd

/-- The code with a length for each symbol, where no length means no code. -/
def ofLengths (lengths : List Nat) : PrefixCode :=
  let groups := (List.range maxLength).map fun i => symbolsOf lengths (i + 1)
  ⟨groups.map List.length, groups.flatten⟩

/-- Whether codes of these lengths use the whole code space. -/
def isComplete (lengths : List Nat) : Bool :=
  ((lengths.filter (0 < ·)).map fun l => 1 <<< (maxLength - l)).foldl (· + ·) 0 = 1 <<< maxLength

/-- The code with these lengths if it uses the whole code space. -/
def complete? (lengths : List Nat) : Option PrefixCode :=
  if isComplete lengths then some (ofLengths lengths) else none

/-- The code with these lengths if it uses the whole code space or has one symbol at most. -/
def usable? (lengths : List Nat) : Option PrefixCode :=
  if isComplete lengths ∨ (lengths.filter (0 < ·)).length ≤ 1 then some (ofLengths lengths) else none

/-- Decodes one symbol. `code` holds the bits so far, `first` the first code of the length of the counts at
hand, and `symbols` the symbols from that code on. -/
def decodeIn (code first : Nat) : List Nat → List Nat → BitReader Nat
  | [], _ => failure
  | count :: counts, symbols => do
    let bit ← takeBit
    let code := 2 * code + bit.toNat
    let first := 2 * first
    if code < first + count then symbols[code - first]?
    else decodeIn code (first + count) counts (symbols.drop count)

def decode (code : PrefixCode) : BitReader Nat := decodeIn 0 0 code.counts code.symbols

end PrefixCode

/-- The codes of a block: one for literals and lengths, one for distances. -/
structure BlockCodes where
  literals : PrefixCode
  distances : PrefixCode
  deriving Repr, DecidableEq

def fixedCodes : BlockCodes where
  literals := PrefixCode.ofLengths
    (List.replicate 144 8 ++ List.replicate 112 9 ++ List.replicate 24 7 ++ List.replicate 8 8)
  distances := PrefixCode.ofLengths (List.replicate 32 5)

/-- The order in which a block gives the lengths of the code for code lengths. -/
def lengthOrder : List Nat := [16, 17, 18, 0, 8, 7, 9, 6, 10, 5, 11, 4, 12, 3, 13, 2, 14, 1, 15]

/-- A run of code lengths, for a symbol that stands for one: a length by itself, the last length some
times, or zeros. -/
def takeRun (lengths : List Nat) (symbol : Nat) : BitReader (List Nat) :=
  match symbol with
  | 16 => do
    let last ← lengths.getLast?
    return List.replicate (3 + (← takeNumber 2)) last
  | 17 => return List.replicate (3 + (← takeNumber 3)) 0
  | 18 => return List.replicate (11 + (← takeNumber 7)) 0
  | length => return [length]

/-- Takes code lengths until there are exactly `wanted`. There is room for as many runs as lengths. -/
def takeLengths (code : PrefixCode) (wanted : Nat) : Nat → List Nat → BitReader (List Nat)
  | 0, _ => failure
  | room + 1, lengths =>
    if lengths.length = wanted then pure lengths
    else if wanted < lengths.length then failure
    else do
      let run ← takeRun lengths (← code.decode)
      takeLengths code wanted room (lengths ++ run)

/-- The codes that a block describes. -/
def takeCodes : BitReader BlockCodes := do
  let literalCount ← takeNumber 5
  let distanceCount ← takeNumber 5
  let lengthCount ← takeNumber 4
  if 29 < literalCount ∨ 29 < distanceCount then failure
  let given ← takeTriples (lengthCount + 4)
  let lengthOf (symbol : Nat) : Nat := ((lengthOrder.zip given).lookup symbol).getD 0
  let code ← PrefixCode.complete? ((List.range 19).map lengthOf)
  let literals := literalCount + 257
  let wanted := literals + distanceCount + 1
  let lengths ← takeLengths code wanted (wanted + 1) []
  return ⟨← PrefixCode.usable? (lengths.take literals), ← PrefixCode.usable? (lengths.drop literals)⟩

/-! ## Blocks -/

/-- The base and the number of extra bits of each length symbol from 257 on. -/
def lengthTable : List (Nat × Nat) :=
  [(3, 0), (4, 0), (5, 0), (6, 0), (7, 0), (8, 0), (9, 0), (10, 0), (11, 1), (13, 1), (15, 1), (17, 1),
    (19, 2), (23, 2), (27, 2), (31, 2), (35, 3), (43, 3), (51, 3), (59, 3), (67, 4), (83, 4), (99, 4),
    (115, 4), (131, 5), (163, 5), (195, 5), (227, 5), (258, 0)]

/-- The base and the number of extra bits of each distance symbol. -/
def distanceTable : List (Nat × Nat) :=
  [(1, 0), (2, 0), (3, 0), (4, 0), (5, 1), (7, 1), (9, 2), (13, 2), (17, 3), (25, 3), (33, 4), (49, 4),
    (65, 5), (97, 5), (129, 6), (193, 6), (257, 7), (385, 7), (513, 8), (769, 8), (1025, 9), (1537, 9),
    (2049, 10), (3073, 10), (4097, 11), (6145, 11), (8193, 12), (12289, 12), (16385, 13), (24577, 13)]

/-- The value of a symbol by such a table. -/
def takeValue (table : List (Nat × Nat)) (symbol : Nat) : BitReader Nat := do
  let (base, extra) ← table[symbol]?
  return base + (← takeNumber extra)

/-- The byte so far back, which is zero before the first one. -/
def byteBack (output : Array UInt8) (distance : Nat) : UInt8 :=
  if distance ≤ output.size then (output[output.size - distance]?).getD 0 else 0

/-- Repeats bytes from a distance back, one after the other, so that they may repeat themselves. -/
def copyBack (distance : Nat) : Nat → Array UInt8 → Array UInt8
  | 0, output => output
  | n + 1, output => copyBack distance n (output.push (byteBack output distance))

/-- Decodes literals and references up to the end of the block. There is room for as many symbols as
there are bits. -/
def inflateSymbols (codes : BlockCodes) : Nat → Array UInt8 → BitReader (Array UInt8)
  | 0, _ => failure
  | room + 1, output => do
    let symbol ← codes.literals.decode
    if symbol < 256 then inflateSymbols codes room (output.push (UInt8.ofNat symbol))
    else if symbol = 256 then return output
    else
      let length ← takeValue lengthTable (symbol - 257)
      let distance ← takeValue distanceTable (← codes.distances.decode)
      inflateSymbols codes room (copyBack distance length output)

def inflateCoded (codes : BlockCodes) (output : Array UInt8) : BitReader (Array UInt8) := do
  inflateSymbols codes ((← get).length + 1) output

def takeBytes : Nat → Array UInt8 → BitReader (Array UInt8)
  | 0, output => pure output
  | n + 1, output => do takeBytes n (output.push (UInt8.ofNat (← takeNumber 8)))

/-- Decodes a block of stored bytes, which starts at a whole byte. -/
def inflateStored (output : Array UInt8) : BitReader (Array UInt8) := do
  modify fun bits => bits.drop (bits.length % 8)
  let length ← takeNumber 16
  let check ← takeNumber 16
  if length + check = 0xFFFF then takeBytes length output else failure

/-- Decodes blocks up to the last one. There is room for as many blocks as there are bits. -/
def inflateBlocks : Nat → Array UInt8 → BitReader (Array UInt8)
  | 0, _ => failure
  | room + 1, output => do
    let last ← takeBit
    let output ←
      match ← takeNumber 2 with
      | 0 => inflateStored output
      | 1 => inflateCoded fixedCodes output
      | 2 => do inflateCoded (← takeCodes) output
      | _ => failure
    if last then return output else inflateBlocks room output

/-- The bytes that a compressed stream stands for. -/
def inflate? (bytes : Bytes) : Option Bytes :=
  let bits := bytes.flatMap bitsOfByte
  ((inflateBlocks (bits.length + 1) #[]).run bits).map fun (output, _) => output.toList

end ModuleAudit.Archive
