import JavaFloor.Bytes

/-!
# Deflated data

The contents of zip files are mostly deflated: blocks of literal bytes and of references to bytes
further up, written in Huffman codes. `Deflate.inflate?` undoes that.

Codes are canonical, so that the lengths of its words determine a code. Positions count bits from
the start of the data.
-/

namespace JavaFloor

namespace Deflate

/-- The bit at a position; the lowest bit of a byte comes first. -/
def bit? (data : Array UInt8) (pos : Nat) : Option Nat :=
  data[pos / 8]?.map fun c => c.toNat >>> (pos % 8) % 2

/-- The number that `n` bits denote, the lowest one first. -/
def bits? (data : Array UInt8) (pos : Nat) : Nat → Option Nat
  | 0 => some 0
  | n + 1 => do return (← bit? data pos) + 2 * (← bits? data (pos + 1) n)

/-- A code: how many words there are of each length from 1 on, and the symbols in the order of their
words. -/
structure Code where
  counts : List Nat
  symbols : Array Nat

namespace Code

/-- The longest words. -/
def maxLength : Nat := 15

/-- The code in which symbol number `i` has a word of the `i`-th length; the length 0 stands for no
word. -/
def ofLengths (lengths : List Nat) : Code :=
  let sizes := (List.range maxLength).map (· + 1)
  { counts := sizes.map lengths.count
    symbols :=
      (sizes.flatMap fun n => (lengths.zipIdx.filter (·.1 == n)).map (·.2)).toArray }

/-- Reads on in a word. Of the words of the length reached, the first one is `first` and belongs to
the symbol number `index`; the bits read so far make up `word`. -/
def readFrom (symbols : Array Nat) (data : Array UInt8) (word first index pos : Nat) :
    List Nat → Option (Nat × Nat)
  | [] => none
  | count :: counts => do
    let word := 2 * word + (← bit? data pos)
    if word < first + count then return (← symbols[index + (word - first)]?, pos + 1)
    else readFrom symbols data word (2 * (first + count)) (index + count) (pos + 1) counts

/-- Reads a word and gives its symbol and the position behind it. -/
def read? (c : Code) (data : Array UInt8) (pos : Nat) : Option (Nat × Nat) :=
  readFrom c.symbols data 0 0 0 pos c.counts

end Code

/-- The shortest length that each length symbol stands for, and how many further bits tell which. -/
def lengths : Array (Nat × Nat) :=
  #[(3, 0), (4, 0), (5, 0), (6, 0), (7, 0), (8, 0), (9, 0), (10, 0), (11, 1), (13, 1), (15, 1),
    (17, 1), (19, 2), (23, 2), (27, 2), (31, 2), (35, 3), (43, 3), (51, 3), (59, 3), (67, 4),
    (83, 4), (99, 4), (115, 4), (131, 5), (163, 5), (195, 5), (227, 5), (258, 0)]

/-- The shortest distance that each distance symbol stands for, and how many further bits tell
which. -/
def distances : Array (Nat × Nat) :=
  #[(1, 0), (2, 0), (3, 0), (4, 0), (5, 1), (7, 1), (9, 2), (13, 2), (17, 3), (25, 3), (33, 4),
    (49, 4), (65, 5), (97, 5), (129, 6), (193, 6), (257, 7), (385, 7), (513, 8), (769, 8),
    (1025, 9), (1537, 9), (2049, 10), (3073, 10), (4097, 11), (6145, 11), (8193, 12), (12289, 12),
    (16385, 13), (24577, 13)]

/-- The number that a symbol and the bits behind it stand for, and the position behind them. -/
def extended? (table : Array (Nat × Nat)) (data : Array UInt8) (symbol pos : Nat) :
    Option (Nat × Nat) := do
  let (least, n) ← table[symbol]?
  return (least + (← bits? data pos n), pos + n)

/-- Appends as many bytes, each a copy of the one `distance` further up. -/
def repeat? (out : Array UInt8) (distance : Nat) : Nat → Option (Array UInt8)
  | 0 => some out
  | n + 1 =>
    if distance ≤ out.size then do
      repeat? (out.push (← out[out.size - distance]?)) distance n
    else none

/-- Reads literals and references up to the symbol that ends a block. Each takes at least one bit of
the data, which is the fuel. -/
def readSymbols (data : Array UInt8) (literal distance : Code) (out : Array UInt8) (pos : Nat) :
    Nat → Option (Array UInt8 × Nat)
  | 0 => none
  | fuel + 1 => do
    let (symbol, pos) ← literal.read? data pos
    if symbol < 256 then
      readSymbols data literal distance (out.push (UInt8.ofNat symbol)) pos fuel
    else if symbol = 256 then return (out, pos)
    else
      let (length, pos) ← extended? lengths data (symbol - 257) pos
      let (symbol, pos) ← distance.read? data pos
      let (back, pos) ← extended? distances data symbol pos
      readSymbols data literal distance (← repeat? out back length) pos fuel

/-- The code of literals and lengths in a block without codes of its own. -/
def fixedLiteral : Code :=
  .ofLengths (List.replicate 144 8 ++ List.replicate 112 9 ++ List.replicate 24 7 ++
    List.replicate 8 8)

/-- The code of distances in a block without codes of its own. -/
def fixedDistance : Code := .ofLengths (List.replicate 30 5)

/-- The order in which the lengths of the code for code lengths are given. -/
def lengthOrder : List Nat := [16, 17, 18, 0, 8, 7, 9, 6, 10, 5, 11, 4, 12, 3, 13, 2, 14, 1, 15]

/-- Reads `n` numbers of three bits. -/
def readTriples (data : Array UInt8) (pos : Nat) : Nat → Option (List Nat)
  | 0 => some []
  | n + 1 => do return (← bits? data pos 3) :: (← readTriples data (pos + 3) n)

/-- Reads the code lengths of a block until there are `total` of them. Of those before, `front`
holds the last one first. -/
def readLengths (data : Array UInt8) (code : Code) (total : Nat) (front : List Nat) (pos : Nat) :
    Nat → Option (List Nat × Nat)
  | 0 => none
  | fuel + 1 =>
    if total ≤ front.length then some (front.reverse, pos)
    else do
      let (symbol, pos) ← code.read? data pos
      if symbol < 16 then readLengths data code total (symbol :: front) pos fuel
      else
        let (value, least, n) ←
          match symbol, front with
          | 16, last :: _ => some (last, 3, 2)
          | 17, _ => some (0, 3, 3)
          | 18, _ => some (0, 11, 7)
          | _, _ => none
        let times := least + (← bits? data pos n)
        readLengths data code total (List.replicate times value ++ front) (pos + n) fuel

/-- Reads the codes of a block that has its own. -/
def readCodes (data : Array UInt8) (pos : Nat) : Option (Code × Code × Nat) := do
  let literals := (← bits? data pos 5) + 257
  let distances := (← bits? data (pos + 5) 5) + 1
  let count := (← bits? data (pos + 10) 4) + 4
  let given := lengthOrder.zip (← readTriples data (pos + 14) count)
  let code := Code.ofLengths ((List.range 19).map fun n => (given.lookup n).getD 0)
  let total := literals + distances
  let (all, pos) ← readLengths data code total [] (pos + 14 + 3 * count) (total + 1)
  return (.ofLengths (all.take literals), .ofLengths ((all.drop literals).take distances), pos)

/-- Reads a block of plain bytes, which starts with the next byte. -/
def readPlain (data out : Array UInt8) (pos : Nat) : Option (Array UInt8 × Nat) := do
  let start := (pos + 7) / 8
  let length ← bits? data (8 * start) 16
  let bytes := data.extract (start + 4) (start + 4 + length)
  if bytes.size = length then return (out ++ bytes, 8 * (start + 4 + length)) else none

/-- Reads blocks up to the one marked as the last. Each takes at least three bits of the data, which
is the fuel. -/
def readBlocks (data out : Array UInt8) (pos : Nat) : Nat → Option (Array UInt8)
  | 0 => none
  | fuel + 1 => do
    let last ← bit? data pos
    let kind ← bits? data (pos + 1) 2
    let (out, pos) ←
      match kind with
      | 0 => readPlain data out (pos + 3)
      | 1 => readSymbols data fixedLiteral fixedDistance out (pos + 3) (8 * data.size + 1)
      | 2 => do
        let (literal, distance, pos) ← readCodes data (pos + 3)
        readSymbols data literal distance out pos (8 * data.size + 1)
      | _ => none
    if last = 1 then return out else readBlocks data out pos fuel

/-- The data that was deflated. -/
def inflate? (data : Array UInt8) : Option (Array UInt8) :=
  readBlocks data #[] 0 (8 * data.size + 1)

end Deflate

end JavaFloor
