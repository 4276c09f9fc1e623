import YamlQuery.Gzip.Bits

/-!
# Gzip.PrefixCode — prefix codes given by the lengths of their words

Of the words of a code only the lengths are given, one for each symbol; zero is for a symbol without
a word.  Words of one length are in the order of their symbols, and shorter words come first.
-/

namespace YamlQuery.Gzip

/-- A code as a tree: from the root, a bit of a word chooses a branch. -/
inductive CodeTree
  | none
  | symbol (n : Nat)
  | branch (zero one : CodeTree)

namespace CodeTree

/-- The tree below words of a length for symbols with lengths, in order, and the symbols that are
left over.  Below the longest words there is nothing. -/
def grow : (levels length : Nat) → List (Nat × Nat) → CodeTree × List (Nat × Nat)
  | _, _, [] => (.none, [])
  | 0, length, (l, n) :: rest =>
    if l = length then (.symbol n, rest) else (.none, (l, n) :: rest)
  | levels + 1, length, (l, n) :: rest =>
    if l = length then (.symbol n, rest)
    else
      let (zero, rest) := grow levels (length + 1) ((l, n) :: rest)
      let (one, rest) := grow levels (length + 1) rest
      (.branch zero one, rest)

/-- The symbol whose word the bits start with, and the bits behind it. -/
def read? : CodeTree → List Bool → Option (Nat × List Bool)
  | .none, _ => Option.none
  | .symbol n, s => some (n, s)
  | .branch .., [] => Option.none
  | .branch zero one, b :: s => if b then one.read? s else zero.read? s

end CodeTree

/-- The longest word of a code. -/
def longestWord : Nat := 15

/-- The code with these lengths: every sequence of bits starts with a word of it, unless it has no
more than one word. -/
def codeOfLengths? (lengths : List Nat) : Option CodeTree :=
  let used := lengths.zipIdx.filter (·.1 != 0)
  let share := used.foldl (fun sum (l, _) => sum + Nat.pow 2 (longestWord - l)) 0
  if used.any (·.1 > longestWord) || share > Nat.pow 2 longestWord ||
      share != Nat.pow 2 longestWord && used.length > 1 then none
  else some (CodeTree.grow longestWord 0 (used.mergeSort fun a b => a.1 ≤ b.1)).1

end YamlQuery.Gzip
