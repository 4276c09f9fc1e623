import YamlQuery.Gzip.PrefixCode

/-!
# Gzip.Inflate — reading compressed data

Compressed data is a sequence of blocks.  A block holds bytes as they are, or bytes and copies of
earlier bytes in two prefix codes, which are fixed ones or written at the start of the block.
-/

namespace YamlQuery.Gzip

/-- The least lengths of copies, and how many bits are added to each. -/
def copyLengths : List (Nat × Nat) :=
  [(3, 0), (4, 0), (5, 0), (6, 0), (7, 0), (8, 0), (9, 0), (10, 0), (11, 1), (13, 1), (15, 1),
    (17, 1), (19, 2), (23, 2), (27, 2), (31, 2), (35, 3), (43, 3), (51, 3), (59, 3), (67, 4),
    (83, 4), (99, 4), (115, 4), (131, 5), (163, 5), (195, 5), (227, 5), (258, 0)]

/-- The least distances of copies, and how many bits are added to each. -/
def copyDistances : List (Nat × Nat) :=
  [(1, 0), (2, 0), (3, 0), (4, 0), (5, 1), (7, 1), (9, 2), (13, 2), (17, 3), (25, 3), (33, 4),
    (49, 4), (65, 5), (97, 5), (129, 6), (193, 6), (257, 7), (385, 7), (513, 8), (769, 8),
    (1025, 9), (1537, 9), (2049, 10), (3073, 10), (4097, 11), (6145, 11), (8193, 12), (12289, 12),
    (16385, 13), (24577, 13)]

/-- A number of a table with the bits that are added to it. -/
def takeSized? (table : List (Nat × Nat)) (n : Nat) (s : List Bool) :
    Option (Nat × List Bool) := do
  let (least, extra) ← table[n]?
  let (x, s) ← takeNat? extra s
  return (least + x, s)

/-- Copies bytes from a distance back, one after another. -/
def copyBack? (distance : Nat) : Nat → Array UInt8 → Option (Array UInt8)
  | 0, out => some out
  | n + 1, out =>
    if distance = 0 ∨ out.size < distance then none
    else
      match out[out.size - distance]? with
      | some b => copyBack? distance n (out.push b)
      | none => none

/-- The codes of a block: for bytes, lengths of copies and the end, and for distances. -/
structure BlockCodes where
  symbols : CodeTree
  distances : CodeTree

/-- Reads bytes and copies up to the end of a block.  Each takes at least one bit, so that as many
steps suffice as there are bits. -/
def readSymbols? (codes : BlockCodes) :
    (steps : Nat) → List Bool → Array UInt8 → Option (List Bool × Array UInt8)
  | 0, _, _ => none
  | steps + 1, s, out =>
    match codes.symbols.read? s with
    | none => none
    | some (n, s) =>
      if n < 256 then readSymbols? codes steps s (out.push (UInt8.ofNat n))
      else if n = 256 then some (s, out)
      else do
        let (length, s) ← takeSized? copyLengths (n - 257) s
        let (n, s) ← codes.distances.read? s
        let (distance, s) ← takeSized? copyDistances n s
        readSymbols? codes steps s (← copyBack? distance length out)

/-- The codes of blocks that bring none. -/
def fixedCodes? : Option BlockCodes := do
  let lengths := List.replicate 144 8 ++ List.replicate 112 9 ++ List.replicate 24 7 ++
    List.replicate 8 8
  return { symbols := ← codeOfLengths? lengths
           distances := ← codeOfLengths? (List.replicate 32 5) }

/-- The order in which the lengths of the code for lengths are written. -/
def lengthOrder : List Nat := [16, 17, 18, 0, 8, 7, 9, 6, 10, 5, 11, 4, 12, 3, 13, 2, 14, 1, 15]

/-- Numbers of three bits, of which there are so many. -/
def takeTriples? : Nat → List Bool → Option (List Nat × List Bool)
  | 0, s => some ([], s)
  | n + 1, s => do
    let (x, s) ← takeNat? 3 s
    let (xs, s) ← takeTriples? n s
    return (x :: xs, s)

/-- Reads `count` lengths in a code for lengths, in which some symbols repeat the last length or
zero. -/
def readLengths? (code : CodeTree) (count : Nat) :
    (steps : Nat) → List Bool → Array Nat → Option (List Nat × List Bool)
  | 0, _, _ => none
  | steps + 1, s, read =>
    if read.size = count then some (read.toList, s)
    else if read.size > count then none
    else
      match code.read? s with
      | none => none
      | some (n, s) =>
        let repeated (bits least length : Nat) : Option (List Nat × List Bool) := do
          let (x, s) ← takeNat? bits s
          readLengths? code count steps s (read ++ Array.replicate (least + x) length)
        if n < 16 then readLengths? code count steps s (read.push n)
        else if n = 16 then read.back?.bind (repeated 2 3)
        else if n = 17 then repeated 3 3 0
        else if n = 18 then repeated 7 11 0
        else none

/-- Reads the codes at the start of a block. -/
def readCodes? (s : List Bool) : Option (BlockCodes × List Bool) := do
  let (symbols, s) ← takeNat? 5 s
  let (distances, s) ← takeNat? 5 s
  let (lengths, s) ← takeNat? 4 s
  let symbols := symbols + 257
  let distances := distances + 1
  if symbols > 286 || distances > 30 then none
  else
    let (triples, s) ← takeTriples? (lengths + 4) s
    let ordered := lengthOrder.zip triples
    let code ← codeOfLengths? ((List.range 19).map fun n => (ordered.lookup n).getD 0)
    let (ls, s) ← readLengths? code (symbols + distances) (s.length + 1) s #[]
    return ({ symbols := ← codeOfLengths? (ls.take symbols)
              distances := ← codeOfLengths? (ls.drop symbols) }, s)

/-- Reads a block of bytes as they are: their number twice, the second time with all bits changed,
and the bytes. -/
def readPlain? (s : List Bool) (out : Array UInt8) : Option (List Bool × Array UInt8) := do
  let (n, s) ← takeNat? 16 (aligned s)
  let (m, s) ← takeNat? 16 s
  if n + m = 0xFFFF then
    let (bs, s) ← takeBytes? n s
    return (s, out ++ bs.toArray)
  else none

/-- Reads blocks up to the last one: the bits behind it, and all bytes. -/
def readBlocks? : (steps : Nat) → List Bool → Array UInt8 → Option (List Bool × Array UInt8)
  | 0, _, _ => none
  | steps + 1, s, out => do
    let (last, s) ← takeNat? 1 s
    let (kind, s) ← takeNat? 2 s
    let (s, out) ← match kind with
      | 0 => readPlain? s out
      | 1 => do readSymbols? (← fixedCodes?) (s.length + 1) s out
      | 2 => do
        let (codes, s) ← readCodes? s
        readSymbols? codes (s.length + 1) s out
      | _ => none
    if last = 1 then some (s, out) else readBlocks? steps s out

/-- The bytes that compressed data holds, and the bits behind it. -/
def inflate? (s : List Bool) : Option (Array UInt8 × List Bool) :=
  (readBlocks? (s.length + 1) s #[]).map fun (s, out) => (out, s)

end YamlQuery.Gzip
