import ClassCatalog.Bytes

/-!
# Inflating

Compressed data is a row of bits, the least significant bit of each byte first, cut into blocks. A
block is stored, or its bytes and its repetitions of earlier output are written in prefix codes, which
are either fixed or given in the block by the lengths of their words. Every word takes a bit at least,
so that there are no more of them than bits.
-/

namespace ClassCatalog.Inflate

/-- Why inflating stops before the end of the last block. -/
inductive Stop where
  | endOfInput
  | corrupt
  deriving DecidableEq, Repr

/-- The bits to come and the output so far. -/
structure Stream where
  bits : List Bool
  output : Array UInt8 := #[]

abbrev Inflating := ExceptT Stop (StateM Stream)

/-- The bits of a byte, the least significant first. -/
def bitsOfByte (b : UInt8) : List Bool := (List.range 8).map fun i => b.toNat.testBit i

/-! ### Bits and output -/

def bit : Inflating Bool := do
  let s ← get
  match s.bits with
  | [] => throw .endOfInput
  | b :: rest => do
    set { s with bits := rest }
    return b

/-- A number of `n` bits, the least significant first. -/
def number : Nat → Inflating Nat
  | 0 => return 0
  | n + 1 => do
    let b ← bit
    let rest ← number n
    return b.toNat + 2 * rest

/-- Passes over the bits up to the next whole byte. -/
def align : Inflating Unit := modify fun s => { s with bits := s.bits.drop (s.bits.length % 8) }

def emit (b : UInt8) : Inflating Unit := modify fun s => { s with output := s.output.push b }

/-- The byte `distance` before the end of the output. Before its first byte the output counts as
zeros. -/
def earlier (distance : Nat) (output : Array UInt8) : UInt8 :=
  if distance ≤ output.size then output.getD (output.size - distance) 0 else 0

/-- Repeats `length` bytes from `distance` before the end of the output. -/
def copy (distance : Nat) : Nat → Inflating Unit
  | 0 => return
  | n + 1 => do
    let s ← get
    emit (earlier distance s.output)
    copy distance n

/-! ### Prefix codes -/

def maxWordLength : Nat := 15

/-- A prefix code. Words of one length follow each other, and behind the words of one length come
those of the next. -/
structure Code where
  /-- How many words there are of each length from one on. -/
  counts : List Nat
  /-- What the words stand for, in the order of the words. -/
  symbols : Array Nat

namespace Code

/-- How many words of the greatest length would use up what the words of a code use up. -/
def weight (counts : List Nat) : Nat := counts.foldl (fun total n => 2 * total + 2 * n) 0

/-- The code whose words have these lengths, by symbol; length zero means that there is no word. A
code of several words has to use up all there is. -/
def ofLengths (lengths : List Nat) : Inflating Code := do
  let sizes := (List.range maxWordLength).map (· + 1)
  let counts := sizes.map fun size => lengths.count size
  let symbols := sizes.flatMap fun size =>
    lengths.zipIdx.filterMap fun l => if l.1 = size then some l.2 else none
  if weight counts ≠ 1 <<< (maxWordLength + 1) ∧ 1 < symbols.length then throw .corrupt
  return { counts, symbols := symbols.toArray }

/-- Reads the rest of a word. `word` is what has been read of it, `first` the first word of that
length and `index` the number of shorter words. -/
def readFrom (symbols : Array Nat) : List Nat → (word first index : Nat) → Inflating Nat
  | [], _, _, _ => throw .corrupt
  | count :: counts, word, first, index => do
    let b ← bit
    let word := 2 * word + b.toNat
    let first := 2 * first
    if word < first + count then
      match symbols[index + (word - first)]? with
      | some symbol => return symbol
      | none => throw .corrupt
    else readFrom symbols counts word (first + count) (index + count)

/-- Reads a word and tells what it stands for. -/
def read (c : Code) : Inflating Nat := readFrom c.symbols c.counts 0 0 0

end Code

/-- The lengths of the words of the fixed code for bytes and repetitions. -/
def fixedLengths : List Nat :=
  List.replicate 144 8 ++ List.replicate 112 9 ++ List.replicate 24 7 ++ List.replicate 8 8

/-- The lengths of the words of the fixed code for distances. -/
def fixedDistanceLengths : List Nat := List.replicate 32 5

/-! ### Repetitions -/

/-- The symbol behind the last byte of a block. -/
def endOfBlock : Nat := 256

/-- The symbols above that of the end stand for lengths: the least one, and how many bits follow. -/
def lengthRanges : List (Nat × Nat) :=
  [(3, 0), (4, 0), (5, 0), (6, 0), (7, 0), (8, 0), (9, 0), (10, 0), (11, 1), (13, 1), (15, 1),
    (17, 1), (19, 2), (23, 2), (27, 2), (31, 2), (35, 3), (43, 3), (51, 3), (59, 3), (67, 4),
    (83, 4), (99, 4), (115, 4), (131, 5), (163, 5), (195, 5), (227, 5), (258, 0)]

/-- What the symbols for distances stand for: the least one, and how many bits follow. -/
def distanceRanges : List (Nat × Nat) :=
  [(1, 0), (2, 0), (3, 0), (4, 0), (5, 1), (7, 1), (9, 2), (13, 2), (17, 3), (25, 3), (33, 4),
    (49, 4), (65, 5), (97, 5), (129, 6), (193, 6), (257, 7), (385, 7), (513, 8), (769, 8),
    (1025, 9), (1537, 9), (2049, 10), (3073, 10), (4097, 11), (6145, 11), (8193, 12), (12289, 12),
    (16385, 13), (24577, 13)]

/-- A number from the range of a symbol. -/
def inRange (ranges : List (Nat × Nat)) (symbol : Nat) : Inflating Nat := do
  match ranges[symbol]? with
  | none => throw .corrupt
  | some (least, width) => do
    let more ← number width
    return least + more

/-- The contents of a block in codes, of `limit` symbols at most. -/
def coded (main distances : Code) : (limit : Nat) → Inflating Unit
  | 0 => throw .corrupt
  | limit + 1 => do
    let symbol ← main.read
    if symbol < endOfBlock then
      emit (UInt8.ofNat symbol)
      coded main distances limit
    else if symbol = endOfBlock then return
    else
      let length ← inRange lengthRanges (symbol - endOfBlock - 1)
      let symbol ← distances.read
      let distance ← inRange distanceRanges symbol
      copy distance length
      coded main distances limit

/-! ### Blocks -/

/-- The contents of a stored block, without their length. -/
def stored : Nat → Inflating Unit
  | 0 => return
  | n + 1 => do
    let b ← number 8
    emit (UInt8.ofNat b)
    stored n

/-- The order in which the lengths of the words for lengths are given. -/
def lengthOrder : List Nat := [16, 17, 18, 0, 8, 7, 9, 6, 10, 5, 11, 4, 12, 3, 13, 2, 14, 1, 15]

/-- `n` numbers of three bits. -/
def threeBits : Nat → Inflating (List Nat)
  | 0 => return []
  | n + 1 => do
    let first ← number 3
    let rest ← threeBits n
    return first :: rest

/-- Lengths of words up to `count` of them, given those so far in reverse and how many symbols may be
read for that. -/
def wordLengths (code : Code) (count : Nat) : (limit : Nat) → List Nat → Inflating (List Nat)
  | 0, _ => throw .corrupt
  | limit + 1, known => do
    if known.length = count then return known.reverse
    if count < known.length then throw .corrupt
    let symbol ← code.read
    let next ←
      if symbol < 16 then pure [symbol]
      else if symbol = 16 then
        match known with
        | [] => throw .corrupt
        | last :: _ => do
          let more ← number 2
          pure (List.replicate (3 + more) last)
      else if symbol = 17 then do
        let more ← number 3
        pure (List.replicate (3 + more) 0)
      else do
        let more ← number 7
        pure (List.replicate (11 + more) 0)
    wordLengths code count limit (next ++ known)

def maxMainWords : Nat := 286

/-- The codes that a block brings with it. -/
def givenCodes : Inflating (Code × Code) := do
  let mainCount ← number 5
  let distanceCount ← number 5
  let lengthCount ← number 4
  let main := 257 + mainCount
  if maxMainWords < main then throw .corrupt
  let given ← threeBits (4 + lengthCount)
  let code ← Code.ofLengths ((List.range 19).map fun symbol =>
    ((lengthOrder.zip given).lookup symbol).getD 0)
  let total := main + 1 + distanceCount
  let lengths ← wordLengths code total (total + 1) []
  let mainCode ← Code.ofLengths (lengths.take main)
  let distanceCode ← Code.ofLengths (lengths.drop main)
  return (mainCode, distanceCode)

/-- One block, and whether it is the last. -/
def block : Inflating Bool := do
  let last ← bit
  let kind ← number 2
  match kind with
  | 0 => do
    align
    let length ← number 16
    let inverse ← number 16
    if length + inverse ≠ 0xFFFF then throw .corrupt
    stored length
  | 1 => do
    let main ← Code.ofLengths fixedLengths
    let distances ← Code.ofLengths fixedDistanceLengths
    let s ← get
    coded main distances (s.bits.length + 1)
  | 2 => do
    let (main, distances) ← givenCodes
    let s ← get
    coded main distances (s.bits.length + 1)
  | _ => throw .corrupt
  return last

/-- Blocks up to the last one, of `limit` at most. -/
def blocks : (limit : Nat) → Inflating Unit
  | 0 => throw .corrupt
  | limit + 1 => do
    let last ← block
    if last then return else blocks limit

/-- What compressed bytes stand for. Where the input ends too early, that is what came before; what
follows the last block is passed over. -/
def inflate? (bytes : Bytes) : Option Bytes :=
  let bits := bytes.flatMap bitsOfByte
  match (blocks (bits.length + 1)).run.run { bits } with
  | (.error .corrupt, _) => none
  | (_, s) => some s.output.toList

end ClassCatalog.Inflate
