/-!
# Gzip.Bits — bytes as bits

The bits of bytes in the order in which compressed data is read: the lowest bit of a byte first.
`takeNat? n` reads a number of `n` bits, its lowest bit first.
-/

namespace YamlQuery.Gzip

/-- The lowest `n` bits of a number, the lowest first. -/
def bitsOf : Nat → Nat → List Bool
  | 0, _ => []
  | n + 1, x => (x % 2 == 1) :: bitsOf n (x / 2)

/-- The bits of bytes. -/
def bits (bytes : List UInt8) : List Bool := bytes.flatMap fun b => bitsOf 8 b.toNat

/-- The number of `n` bits at the start, and the bits behind it. -/
def takeNat? : Nat → List Bool → Option (Nat × List Bool)
  | 0, s => some (0, s)
  | _ + 1, [] => none
  | n + 1, b :: s => (takeNat? n s).map fun (x, s) => (b.toNat + 2 * x, s)

/-- The next `n` bytes, and the bits behind them. -/
def takeBytes? : Nat → List Bool → Option (List UInt8 × List Bool)
  | 0, s => some ([], s)
  | n + 1, s =>
    match takeNat? 8 s with
    | none => none
    | some (x, s) => (takeBytes? n s).map fun (bs, s) => (UInt8.ofNat x :: bs, s)

/-- The bits from the next start of a byte on, in data that ends with a whole byte. -/
def aligned (s : List Bool) : List Bool := s.drop (s.length % 8)

end YamlQuery.Gzip
