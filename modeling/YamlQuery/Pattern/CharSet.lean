import YamlQuery.Unicode.Age
import YamlQuery.Unicode.Break
import YamlQuery.Unicode.Fold

/-!
# Pattern.CharSet — sets of characters in patterns

A set is known by its members.  An estimate of how many runs of characters it has, and whether they
go beyond ASCII, goes with it for what is reckoned to be the size of a pattern.  In octet mode the
characters up to `\xff` stand for octets.

A pattern may name sets, which ones is up to a table (`NamedSets`).
-/

namespace YamlQuery

structure CharSet where
  has : Char → Bool
  runs : Nat := 1
  wide : Bool := true

namespace CharSet

/-- The character is beyond ASCII. -/
def isWide (c : Char) : Bool := 128 ≤ c.toNat

def none : CharSet := ⟨fun _ => false, 0, false⟩

def single (c : Char) : CharSet := ⟨fun x => x == c, 1, isWide c⟩

def range (a b : Char) : CharSet := ⟨fun x => a ≤ x && x ≤ b, 1, isWide b⟩

def ofList (cs : List Char) : CharSet := ⟨cs.contains, cs.length, cs.any isWide⟩

def union (a b : CharSet) : CharSet :=
  ⟨fun c => a.has c || b.has c, a.runs + b.runs, a.wide || b.wide⟩

def inter (a b : CharSet) : CharSet :=
  ⟨fun c => a.has c && b.has c, a.runs + b.runs, a.wide && b.wide⟩

def diff (a b : CharSet) : CharSet := ⟨fun c => a.has c && !b.has c, a.runs + b.runs, a.wide⟩

def symmDiff (a b : CharSet) : CharSet :=
  ⟨fun c => a.has c != b.has c, a.runs + b.runs, a.wide || b.wide⟩

/-- The characters, or the octets, that are not in the set. -/
def compl (octets : Bool) (a : CharSet) : CharSet :=
  ⟨fun c => (!octets || c.toNat ≤ 0xFF) && !a.has c, a.runs + 1, !octets⟩

/-- The letters of the set in any case.  Beyond ASCII there are letters with `k` or `s` as their small
letter. -/
def anyCase (ascii : Bool) (a : CharSet) : CharSet :=
  if ascii then ⟨fun c => a.has c || a.has c.toLower || a.has c.toUpper, 2 * a.runs, a.wide⟩
  else
    ⟨fun c => (Unicode.caseVariants c).any a.has, 2 * a.runs,
      a.wide || ['k', 's', 'K', 'S'].any a.has⟩

/-- No octet beyond ASCII is in the set. -/
def isAscii (a : CharSet) : Bool := (List.range 128).all fun n => !a.has (Char.ofNat (128 + n))

/-! ### Named sets -/

/-- The sets that `\d`, `\s` and `\w` stand for. -/
def ofLetter? (ascii : Bool) (c : Char) : Option CharSet :=
  match c with
  | 'd' => some (if ascii then range '0' '9' else ⟨Unicode.isDecimal, 71, true⟩)
  | 's' =>
    some <|
      if ascii then ofList ['\t', '\n', '\x0b', '\x0c', '\r', ' '] else ⟨Text.isBlank, 10, true⟩
  | 'w' =>
    some <|
      if ascii then ⟨fun c => c.toNat < 128 && Unicode.isWord c, 4, false⟩
      else ⟨Unicode.isWord, 770, true⟩
  | _ => Option.none

def digits : CharSet := range '0' '9'
def capitals : CharSet := range 'A' 'Z'
def smalls : CharSet := range 'a' 'z'
def letters : CharSet := capitals.union smalls

/-- The sets that stand for themselves in `[:name:]`. -/
def ofAsciiName? (name : String) : Option CharSet :=
  match name with
  | "alnum" => some (digits.union letters)
  | "alpha" => some letters
  | "ascii" => some (range '\x00' '\x7f')
  | "blank" => some (ofList ['\t', ' '])
  | "cntrl" => some ((range '\x00' '\x1f').union (single '\x7f'))
  | "digit" => some digits
  | "graph" => some (range '!' '~')
  | "lower" => some smalls
  | "print" => some (range ' ' '~')
  | "punct" =>
    some ((range '!' '/').union <| (range ':' '@').union <|
      (range '[' '\x60').union (range '\x7b' '~'))
  | "space" => some (ofList ['\t', '\n', '\x0b', '\x0c', '\r', ' '])
  | "upper" => some capitals
  | "word" => some ((digits.union letters).union (single '_'))
  | "xdigit" => some (digits.union ((range 'A' 'F').union (range 'a' 'f')))
  | _ => Option.none

/-- The characters of general categories. -/
def ofCategories (categories : List String) : CharSet :=
  ⟨Unicode.hasCategory categories, 100 * categories.length, true⟩

/-- The set of a general category or a group of them. -/
def ofCategoryName? (name : List Char) : Option CharSet :=
  match String.ofList (Unicode.looseName name) with
  | "any" => some ⟨fun _ => true, 1, true⟩
  | "assigned" => some ⟨fun c => !Unicode.hasCategory ["Cn"] c, 700, true⟩
  | "ascii" => some (range '\x00' '\x7f')
  | _ => (Unicode.categories? name).map ofCategories

/-- The set of a property without a value: a property, a category or a script.  `cf`, `sc` and `lc`
are categories. -/
def ofName? (name : List Char) : Option CharSet :=
  let category := ["cf".toList, "sc".toList, "lc".toList].contains (Unicode.looseName name)
  match if category then Option.none else Unicode.property? name with
  | some p => some ⟨p.has, p.exceptions.length + 100 * p.categories.length + 1, true⟩
  | Option.none =>
    match ofCategoryName? name with
    | some s => some s
    | Option.none => (Unicode.script? name).map fun s => ⟨Unicode.hasScript s, 20, true⟩

/-- The characters with a value of a property. -/
def ofBreak? (b : Unicode.Break) (value : List Char) : Option CharSet :=
  (b.value? value).map fun v => ⟨fun c => b.value c == v, 400, true⟩

/-- The set of a property with a value: a category, a script, an age, or where texts are cut. -/
def ofNameValue? (name value : List Char) : Option CharSet :=
  match String.ofList (Unicode.looseName name) with
  | "gc" | "generalcategory" => ofCategoryName? value
  | "sc" | "script" => (Unicode.script? value).map fun s => ⟨Unicode.hasScript s, 20, true⟩
  | "scx" | "scriptextensions" =>
    (Unicode.script? value).map fun s => ⟨Unicode.usedInScript s, 30, true⟩
  | "age" => (Unicode.age? value).map fun letters => ⟨Unicode.hasAge letters, 700, true⟩
  | "gcb" | "graphemeclusterbreak" => ofBreak? Unicode.graphemeBreak value
  | "wb" | "wordbreak" => ofBreak? Unicode.wordBreak value
  | "sb" | "sentencebreak" => ofBreak? Unicode.sentenceBreak value
  | _ => Option.none

end CharSet

/-- The sets that patterns may name: by a name alone, and by the name of a property and that of a
value.  A name that stands for no set makes a pattern invalid. -/
structure NamedSets where
  ofName? : List Char → Option CharSet
  ofNameValue? : List Char → List Char → Option CharSet

/-- The sets of Unicode. -/
def NamedSets.unicode : NamedSets := ⟨CharSet.ofName?, CharSet.ofNameValue?⟩

end YamlQuery
