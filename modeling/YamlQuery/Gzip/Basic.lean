import YamlQuery.Gzip.Inflate

/-!
# Gzip — compressed files

A gzip file is a header, compressed data, a check sum of the bytes and their number.  The header may
hold further fields, a name and a comment, and a check sum of its own.  Data behind the first such
file is not read.  `compress` writes blocks of bytes as they are.
-/

namespace YamlQuery.Gzip

/-! ### Check sums -/

/-- One step of a check sum: a bit of the data. -/
def crcBit (c : UInt32) : UInt32 := if c &&& 1 = 1 then (c >>> 1) ^^^ 0xEDB88320 else c >>> 1

/-- The check sum behind a byte. -/
def crcByte (c : UInt32) (b : UInt8) : UInt32 :=
  (List.range 8).foldl (fun c _ => crcBit c) (c ^^^ b.toUInt32)

/-- The cyclic redundancy check of 32 bits. -/
def crc32 (bytes : List UInt8) : UInt32 := bytes.foldl crcByte 0xFFFFFFFF ^^^ 0xFFFFFFFF

/-- A number as bytes, the lowest first. -/
def littleEndian : Nat → Nat → List UInt8
  | 0, _ => []
  | n + 1, x => UInt8.ofNat (x % 256) :: littleEndian n (x / 256)

/-- The number that bytes write, the lowest first. -/
def ofLittleEndian (bytes : List UInt8) : Nat := bytes.foldr (fun b x => b.toNat + 256 * x) 0

/-! ### Headers -/

/-- The two bytes that a gzip file starts with. -/
def magic : List UInt8 := [0x1F, 0x8B]

/-- The next `n` bytes, and those behind them. -/
def take? (n : Nat) (bytes : List UInt8) : Option (List UInt8 × List UInt8) :=
  if n ≤ bytes.length then some (bytes.take n, bytes.drop n) else none

/-- The bytes behind the next zero. -/
def behindZero? : List UInt8 → Option (List UInt8)
  | [] => none
  | b :: bs => if b = 0 then some bs else behindZero? bs

/-- The bytes behind a part of the header that is there if a bit of the flags is set. -/
def skipIf? (flags : UInt8) (bit : UInt8) (skip? : List UInt8 → Option (List UInt8))
    (bytes : List UInt8) : Option (List UInt8) :=
  if flags &&& bit = 0 then some bytes else skip? bytes

/-- The bytes behind fields with their length in two bytes. -/
def behindFields? (bytes : List UInt8) : Option (List UInt8) := do
  let (length, bytes) ← take? 2 bytes
  return (← take? (ofLittleEndian length) bytes).2

/-- The bytes behind the header of a file. -/
def behindHeader? (file : List UInt8) : Option (List UInt8) := do
  let (start, bytes) ← take? 10 file
  match start with
  | 0x1F :: 0x8B :: 8 :: flags :: _ =>
    let bytes ← skipIf? flags 4 behindFields? bytes
    let bytes ← skipIf? flags 8 behindZero? bytes
    let bytes ← skipIf? flags 16 behindZero? bytes
    let sum := crc32 (file.take (file.length - bytes.length))
    skipIf? flags 2 (fun bytes => do
      let (check, bytes) ← take? 2 bytes
      if ofLittleEndian check = sum.toNat % 0x10000 then some bytes else none) bytes
  | _ => none

/-! ### Files -/

/-- The bytes that a gzip file holds. -/
def expand? (file : List UInt8) : Option (List UInt8) := do
  let (out, s) ← inflate? (bits (← behindHeader? file))
  let out := out.toList
  let (check, s) ← takeNat? 32 (aligned s)
  let (size, _) ← takeNat? 32 s
  if check = (crc32 out).toNat ∧ size = out.length % 0x100000000 then some out else none

/-- Bytes in blocks as they are; each has at most `2 ^ 16 - 1` bytes. -/
def plainBlocks : (steps : Nat) → List UInt8 → List UInt8
  | 0, _ => []
  | steps + 1, bytes =>
    let block := bytes.take 0xFFFF
    let rest := bytes.drop 0xFFFF
    (if rest.isEmpty then 1 else 0) :: littleEndian 2 block.length ++
      littleEndian 2 (0xFFFF - block.length) ++ block ++
        if rest.isEmpty then [] else plainBlocks steps rest

/-- The bytes as a gzip file. -/
def compress (bytes : List UInt8) : List UInt8 :=
  magic ++ [8, 0, 0, 0, 0, 0, 0, 0xFF] ++ plainBlocks (bytes.length + 1) bytes ++
    littleEndian 4 (crc32 bytes).toNat ++ littleEndian 4 bytes.length

end YamlQuery.Gzip
