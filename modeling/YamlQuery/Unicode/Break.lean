import YamlQuery.Unicode.Property
import YamlQuery.Unicode.Script

/-!
# Unicode.Break — where texts are cut into characters, words and sentences

Three properties say how a text is cut: into what a reader takes for one character, into words, and
into sentences.  Each gives every character one of several values.  A rule for each value says which
characters have it; of the rules that apply to a character, the first one counts.
-/

namespace YamlQuery.Unicode

/-- The character has a property with this name. -/
def hasProperty (name : String) (c : Char) : Bool := (property? name.toList).any (·.has c)

/-- A property with values: each value with all its names, and the first name of the value that a
character has.  No name stands for having none of the values. -/
structure Break where
  values : List String
  value : Char → String

namespace Break

/-- The first name of the value with a name. -/
def value? (b : Break) (name : List Char) : Option String :=
  let name := looseName name
  (b.values.find? fun names => (Text.words names.toList).any (looseName · == name)).bind
    fun names => (Text.words names.toList).head?.map String.ofList

/-- The value of the first rule that applies, if one does. -/
def choose (rules : List (String × (Char → Bool))) (c : Char) : String :=
  match rules.find? fun (_, applies) => applies c with
  | some (value, _) => value
  | none => "Other"

end Break

/-- The character is in ranges that a text writes. -/
def isIn (ranges : String) : Char → Bool :=
  let ranges := Ranges.ofText ranges
  ranges.has

/-- Marks that are part of what they follow. -/
def isExtending (c : Char) : Bool := hasProperty "Grapheme_Extend" c || hasProperty "Emoji_Modifier" c

/-- Signs before the digits or letters that they go with. -/
def isPrepended (c : Char) : Bool :=
  hasProperty "Prepended_Concatenation_Mark" c ||
    isIn "D4E 111C2-111C3 113D1 1193F 11941 11A3A 11A84-11A89 11D46 11F02" c

/-- How many syllables of Korean the characters from `U+AC00` on write. -/
def hangulCount : Nat := 11172

/-- How many of these differ in their last consonant alone. -/
def hangulFinals : Nat := 28

/-- The place of a syllable of Korean among all. -/
def hangulPlace? (c : Char) : Option Nat :=
  if 0xAC00 ≤ c.toNat && c.toNat < 0xAC00 + hangulCount then some (c.toNat - 0xAC00) else none

/-- The property `Grapheme_Cluster_Break`. -/
def graphemeBreak : Break where
  values := ["Control CN", "CR", "Extend EX", "L", "LF", "LV", "LVT", "Prepend PP",
    "Regional_Indicator RI", "SpacingMark SM", "T", "V", "ZWJ"]
  value := Break.choose [
    ("CR", (· == '\r')),
    ("LF", (· == '\n')),
    ("ZWJ", (· == '\u200d')),
    ("Extend", isExtending),
    ("Prepend", isPrepended),
    ("Control", fun c => hasCategory ["Zl", "Zp", "Cc", "Cf"] c ||
      (hasCategory ["Cn"] c && hasProperty "Default_Ignorable_Code_Point" c)),
    ("Regional_Indicator", hasProperty "Regional_Indicator"),
    ("SpacingMark", fun c => isIn "E33 EB3" c || (hasCategory ["Mc"] c &&
      !isIn ("102B-102C 1038 1062-1064 1067-106D 1083 1087-108C 108F 109A-109C 1A61 1A63-1A64 " ++
        "AA7B AA7D 11720-11721") c)),
    ("L", isIn "1100-115F A960-A97C"),
    ("V", isIn "1160-11A7 D7B0-D7C6 16D63 16D67-16D6A"),
    ("T", isIn "11A8-11FF D7CB-D7FB"),
    ("LV", fun c => (hangulPlace? c).any (· % hangulFinals == 0)),
    ("LVT", fun c => (hangulPlace? c).any (· % hangulFinals != 0))]

/-- Digits and the points between them. -/
def isNumeric (c : Char) : Bool :=
  hasCategory ["Nd"] c || isIn "600-605 66B-66C 6DD 890-891 8E2 110BD 110CD" c

/-- Signs for layout. -/
def isFormat (c : Char) : Bool :=
  hasCategory ["Cf"] c && !(c == '\u200c' || c == '\u200d' || isPrepended c)

/-- Letters of scripts that are written without space between words. -/
def isUnspaced (c : Char) : Bool :=
  ["Thai", "Laoo", "Mymr", "Khmr", "Tale", "Talu", "Lana", "Tavt", "Ahom"].contains (script c) &&
    alphabetic.has c

/-- The property `Word_Break`. -/
def wordBreak : Break where
  values := ["ALetter LE", "CR", "Double_Quote DQ", "Extend", "ExtendNumLet EX", "Format FO",
    "Hebrew_Letter HL", "Katakana KA", "LF", "MidLetter ML", "MidNum MN", "MidNumLet MB",
    "Newline NL", "Numeric NU", "Regional_Indicator RI", "Single_Quote SQ", "WSegSpace", "ZWJ"]
  value := Break.choose [
    ("CR", (· == '\r')),
    ("LF", (· == '\n')),
    ("Newline", isIn "B-C 85 2028-2029"),
    ("ZWJ", (· == '\u200d')),
    ("Extend", fun c => isExtending c || hasCategory ["Mc"] c),
    ("Regional_Indicator", hasProperty "Regional_Indicator"),
    ("Numeric", fun c => isNumeric c && c != '\u066c'),
    ("Format", fun c => isFormat c && c != '\u200b'),
    ("Katakana", fun c => hasScript "Kana" c || isIn "3031-3035 309B-309C 30A0 30FC FF70" c),
    ("Hebrew_Letter", fun c => hasScript "Hebr" c && hasCategory ["Lo"] c),
    ("Single_Quote", isIn "27"),
    ("Double_Quote", isIn "22"),
    ("MidNumLet", isIn "2E 2018-2019 2024 FE52 FF07 FF0E"),
    ("MidLetter", isIn "3A B7 387 55F 5F4 2027 FE13 FE55 FF1A"),
    ("MidNum", isIn "2C 3B 37E 589 60C-60D 66C 7F8 2044 FE10 FE14 FE50 FE54 FF0C FF1B"),
    ("ExtendNumLet", fun c => hasCategory ["Pc"] c || c == '\u202f'),
    ("ALetter", fun c =>
      isIn ("2C2-2C5 2D2-2D7 2DE-2DF 2E5-2EB 2ED 2EF-2FF 55A-55C 55E 58A 5F3 70F A708-A716 " ++
        "A720-A721 A789-A78A AB5B") c ||
      (alphabetic.has c && !hasProperty "Ideographic" c && !isUnspaced c && !hasScript "Hira" c)),
    ("WSegSpace", fun c => hasCategory ["Zs"] c && !isIn "A0 2007" c)]

/-- Small letters that are neither small nor capital letters for sentences. -/
def isMkhedruli : Char → Bool := isIn "10D0-10FA 10FD-10FF"

/-- Capital letters that are neither. -/
def isMtavruli : Char → Bool := isIn "1C90-1CBA 1CBD-1CBF"

/-- The property `Sentence_Break`. -/
def sentenceBreak : Break where
  values := ["ATerm AT", "CR", "Close CL", "Extend EX", "Format FO", "LF", "Lower LO", "Numeric NU",
    "OLetter LE", "SContinue SC", "STerm ST", "Sep SE", "Sp SP", "Upper UP"]
  value := Break.choose [
    ("CR", (· == '\r')),
    ("LF", (· == '\n')),
    ("Sep", isIn "85 2028-2029"),
    ("Extend", fun c =>
      hasProperty "Grapheme_Extend" c || c == '\u200d' || hasCategory ["Mc"] c),
    ("Format", isFormat),
    ("Sp", hasProperty "White_Space"),
    ("Lower", fun c => hasProperty "Lowercase" c && !isMkhedruli c),
    ("Upper", fun c => (hasCategory ["Lt"] c || hasProperty "Uppercase" c) && !isMtavruli c),
    ("OLetter", fun c => alphabetic.has c || isIn "A0 5F3 70F" c),
    ("Numeric", isNumeric),
    ("ATerm", isIn "2E 2024 FE52 FF0E"),
    ("STerm", hasProperty "Sentence_Terminal"),
    ("Close", fun c => hasCategory ["Ps", "Pe", "Pi", "Pf"] c ||
      isIn "22 27 275B-2760 2E00-2E01 2E06-2E08 2E0B 1F676-1F678" c),
    ("SContinue", isIn ("2C-2D 3A-3B 37E 55D 60C-60D 7F8 1802 1808 2013-2014 3001 FE10-FE11 " ++
      "FE13-FE14 FE31-FE32 FE50-FE51 FE54-FE55 FE58 FE63 FF0C-FF0D FF1A-FF1B FF64"))]

end YamlQuery.Unicode
