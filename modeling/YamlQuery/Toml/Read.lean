import YamlQuery.Double.Decimal
import YamlQuery.Text.Digits
import YamlQuery.Text.Split
import YamlQuery.Toml.Basic

/-!
# Toml.Read — TOML text to tables

A reader takes its part from the front of the text and gives the rest.  Arrays and tables between
braces nest less than 80 deep.
-/

namespace YamlQuery.Toml

open YamlQuery.Text

/-! ### Spaces and comments -/

def isSpace (c : Char) : Bool := c == ' ' || c == '\t'

def skipSpace (s : List Char) : List Char := s.dropWhile isSpace

/-- The characters of comments: tabs and all that are no control characters. -/
def isPlain (c : Char) : Bool := c == '\t' || (' ' ≤ c && c ≤ '~') || '\x80' ≤ c

/-- The text behind a line end. -/
def newline? : List Char → Option (List Char)
  | '\n' :: s => some s
  | '\r' :: '\n' :: s => some s
  | _ => none

/-- The text behind the end of a line, which may be the end of the text; before it nothing stands
but spaces and a comment. -/
def lineEnd? (s : List Char) : Option (List Char) :=
  match (match skipSpace s with
    | '#' :: s => s.dropWhile isPlain
    | s => s) with
  | [] => some []
  | s => newline? s

/-- The text behind spaces, line ends and comments. -/
def skipGaps (inComment : Bool) : List Char → List Char
  | [] => []
  | c :: s =>
    if c = '\n' || c = '\r' && s.head? = some '\n' then skipGaps false s
    else if inComment then if isPlain c then skipGaps true s else c :: s
    else if isSpace c then skipGaps false s
    else if c = '#' then skipGaps true s
    else c :: s

/-! ### Strings -/

/-- Where in a quoted text a character stands: in its text, behind a backslash, in a code of so many
more digits, or among the blanks that a backslash at the end of a line removes. -/
inductive QuotedPlace
  | text
  | escape
  | code (digits value : Nat)
  | joint

/-- The character of an escape with one letter. -/
def shortEscape? : Char → Option Char
  | 'b' => some '\x08'
  | 't' => some '\t'
  | 'n' => some '\n'
  | 'f' => some '\x0c'
  | 'r' => some '\r'
  | '"' => some '"'
  | '\\' => some '\\'
  | _ => none

/-- The character with a number, if there is one. -/
def charOf? (n : Nat) : Option Char := if n.isValidChar then some (Char.ofNat n) else none

/-- Puts a character in front of a text that has been read. -/
def push (c : Char) (r : Option (List Char × List Char)) : Option (List Char × List Char) :=
  r.map fun (cs, s) => (c :: cs, s)

/-- A blank or a line end comes next. -/
def startsBlank (s : List Char) : Bool :=
  match s with
  | c :: s => isSpace c || (newline? (c :: s)).isSome
  | [] => false

/-- The end of a text between three quotes: two more quotes before the end belong to the text. -/
def closeMany? (quote : Char) (s : List Char) : Option (List Char × List Char) :=
  let n := min 5 (s.takeWhile (· == quote)).length
  if n < 3 then none else some (List.replicate (n - 3) quote, s.drop n)

/-- The text up to a double quote, or up to three of them. -/
def quoted? (many : Bool) : QuotedPlace → List Char → Option (List Char × List Char)
  | _, [] => none
  | .text, c :: s =>
    if c = '"' then
      if many then
        match closeMany? '"' (c :: s) with
        | some r => some r
        | none => push c (quoted? many .text s)
      else some ([], s)
    else if c = '\\' then
      if many && (newline? (skipSpace s)).isSome then quoted? many .joint s
      else quoted? many .escape s
    else if isPlain c || many && c = '\n' then push c (quoted? many .text s)
    else if many && c = '\r' && s.head? = some '\n' then quoted? many .text s
    else none
  | .escape, c :: s =>
    if c = 'u' then quoted? many (.code 4 0) s
    else if c = 'U' then quoted? many (.code 8 0) s
    else
      match shortEscape? c with
      | some e => push e (quoted? many .text s)
      | none => none
  | .code digits value, c :: s =>
    match digitOf? 16 c with
    | none => none
    | some d =>
      if digits ≤ 1 then
        match charOf? (value * 16 + d) with
        | some e => push e (quoted? many .text s)
        | none => none
      else quoted? many (.code (digits - 1) (value * 16 + d)) s
  | .joint, _ :: s => quoted? many (if startsBlank s then .joint else .text) s

/-- The text up to a single quote, or up to three of them. -/
def literal? (many : Bool) : List Char → Option (List Char × List Char)
  | [] => none
  | c :: s =>
    if c = '\'' then
      if many then
        match closeMany? '\'' (c :: s) with
        | some r => some r
        | none => push c (literal? many s)
      else some ([], s)
    else if isPlain c || many && c = '\n' then push c (literal? many s)
    else if many && c = '\r' && s.head? = some '\n' then literal? many s
    else none

/-- The text without a line end at its start. -/
def dropNewline (s : List Char) : List Char := (newline? s).getD s

/-- A string of any kind. -/
def string? : List Char → Option (List Char × List Char)
  | '"' :: '"' :: '"' :: s => quoted? true .text (dropNewline s)
  | '"' :: s => quoted? false .text s
  | '\'' :: '\'' :: '\'' :: s => literal? true (dropNewline s)
  | '\'' :: s => literal? false s
  | _ => none

/-! ### Keys -/

/-- A character of keys without quotes. -/
def isBare (c : Char) : Bool := c.isAlphanum || c == '_' || c == '-'

/-- A key without dots. -/
def key? (s : List Char) : Option (String × List Char) :=
  (match s with
    | '"' :: s => quoted? false .text s
    | '\'' :: s => literal? false s
    | s => if (s.takeWhile isBare).isEmpty then none else some (s.span isBare)).map
      fun (k, s) => (String.ofList k, s)

/-- The longest key in parts. -/
def mostParts : Nat := 79

/-- Keys with dots between them, and the text behind them and spaces. -/
def keys? : (parts : Nat) → List Char → Option (List String × List Char)
  | 0, _ => none
  | parts + 1, s => do
    let (k, s) ← key? s
    match skipSpace s with
    | '.' :: s => (keys? parts (skipSpace s)).map fun (ks, s) => (k :: ks, s)
    | s => some ([k], s)

/-! ### Numbers and moments -/

/-- Digits of a base, with single underscores between them. -/
def underscored? (base : Nat) (s : List Char) : Option (List Char) :=
  let groups := splitOn ['_'] s
  if groups.all fun g => !g.isEmpty && g.all fun c => (digitOf? base c).isSome then
    some groups.flatten
  else none

/-- Decimal digits without a zero in front. -/
def whole? (s : List Char) : Option (List Char) :=
  (underscored? 10 s).filter fun ds => ds.length == 1 || ds.head? != some '0'

/-- A sign, and what follows it. -/
def sign : List Char → Bool × List Char
  | '-' :: s => (true, s)
  | '+' :: s => (false, s)
  | s => (false, s)

/-- An integer of 64 bits. -/
def integer? (s : List Char) : Option Int :=
  let n? : Option Int := match s with
    | '0' :: 'x' :: s => ((underscored? 16 s).bind (natOf? 16)).map Int.ofNat
    | '0' :: 'o' :: s => ((underscored? 8 s).bind (natOf? 8)).map Int.ofNat
    | '0' :: 'b' :: s => ((underscored? 2 s).bind (natOf? 2)).map Int.ofNat
    | s =>
      let (negative, s) := sign s
      ((whole? s).bind (natOf? 10)).map fun n => if negative then -Int.ofNat n else Int.ofNat n
  n?.filter fun i => decide (-0x8000000000000000 ≤ i ∧ i < 0x8000000000000000)

/-- A number with a fraction or an exponent, or one that is infinite or none at all. -/
def isFloat (s : List Char) : Bool :=
  let (negative, s) := sign s
  if s = "inf".toList || s = "nan".toList then true
  else
    let (mantissa, exponent) := match cutAt (fun c => c == 'e' || c == 'E') s with
      | some (m, e) => (m, some (sign e).2)
      | none => (s, none)
    let (front, fraction) := match cutAt (· == '.') mantissa with
      | some (n, f) => (n, some f)
      | none => (mantissa, none)
    let wellFormed := (exponent.isSome || fraction.isSome) && (whole? front).isSome &&
      fraction.all (fun f => (underscored? 10 f).isSome) &&
      exponent.all fun e => (underscored? 10 e).isSome
    wellFormed && (negative ||
      (Double.ofText? (s.filter (· != '_'))).any (·.isFinite))

/-- Two digits below a limit. -/
def isPair (least limit : Nat) (s : List Char) : Bool :=
  s.length == 2 && s.all isDigit && (natOf? 10 s).any fun n => least ≤ n && n ≤ limit

/-- How many days a month of a year has. -/
def daysOf (year month : Nat) : Nat :=
  if month = 2 then
    if year % 4 = 0 ∧ (year % 100 ≠ 0 ∨ year % 400 = 0) then 29 else 28
  else if month = 4 ∨ month = 6 ∨ month = 9 ∨ month = 11 then 30 else 31

/-- A year, a month and a day. -/
def isDate (s : List Char) : Bool :=
  match splitOn ['-'] s with
  | [y, m, d] =>
    y.length == 4 && y.all isDigit && isPair 1 12 m &&
      isPair 1 (daysOf ((natOf? 10 y).getD 0) ((natOf? 10 m).getD 0)) d
  | _ => false

/-- Hours, minutes and seconds, which may have a fraction. -/
def isTime (s : List Char) : Bool :=
  let (clock, fraction) := match cutAt (· == '.') s with
    | some (c, f) => (c, some f)
    | none => (s, none)
  (match splitOn [':'] clock with
    | [h, m, s] => isPair 0 23 h && isPair 0 59 m && isPair 0 60 s
    | _ => false) && fraction.all fun f => !f.isEmpty && f.all isDigit

/-- The distance of a time from the one at the first meridian. -/
def isOffset (s : List Char) : Bool :=
  match splitOn [':'] s with
  | [h, m] => isPair 0 23 h && isPair 0 59 m
  | _ => false

/-- A time, which may have an offset. -/
def isZonedTime (s : List Char) : Bool :=
  isTime s || (match s.getLast? with
    | some c => (c == 'Z' || c == 'z') && isTime s.dropLast
    | none => false) ||
  match cutAt (fun c => c == '+' || c == '-') s with
  | some (t, o) => isTime t && isOffset o
  | none => false

/-- A date, a time, or both. -/
def isMoment (s : List Char) : Bool :=
  isDate s || isTime s ||
  match cutAt (fun c => c == 'T' || c == 't') s with
  | some (d, t) => isDate d && isZonedTime t
  | none => false

/-- The characters of numbers, moments and words. -/
def isScalarChar (c : Char) : Bool :=
  c.isAlphanum || c == '_' || c == '-' || c == '+' || c == '.' || c == ':'

/-- A date and behind a space a time. -/
def spacedMoment? (date : List Char) : List Char → Option (List Char × List Char)
  | ' ' :: s =>
    let (time, s) := s.span isScalarChar
    if isDate date && isZonedTime time then some (date ++ ' ' :: time, s) else none
  | _ => none

/-- A value without quotes or brackets. -/
def scalar? (s : List Char) : Option (Toml × List Char) :=
  let (word, rest) := s.span isScalarChar
  if word = "true".toList then some (.boolean true, rest)
  else if word = "false".toList then some (.boolean false, rest)
  else
    match integer? word, spacedMoment? word rest with
    | some i, _ => some (.integer i, rest)
    | none, some (m, rest) => some (.moment (String.ofList m), rest)
    | none, none =>
      if isFloat word then some (.float (String.ofList word), rest)
      else if isMoment word then some (.moment (String.ofList word), rest)
      else none

/-! ### Values -/

/-- How deep arrays and tables between braces nest at most. -/
def deepest : Nat := 79

mutual

/-- A value, with so many levels to go. -/
def value? : (steps depth : Nat) → List Char → Option (Toml × List Char)
  | 0, _, _ => none
  | steps + 1, depth, s =>
    match s, depth with
    | '"' :: _, _ | '\'' :: _, _ =>
      (string? s).map fun (t, s) => (.string (String.ofList t), s)
    | '[' :: _, 0 | '\x7b' :: _, 0 => none
    | '[' :: s, depth + 1 =>
      (items? steps depth (skipGaps false s)).map fun (vs, s) => (.array vs, s)
    | '\x7b' :: s, depth + 1 =>
      match skipSpace s with
      | '\x7d' :: s => some (.table .braces [], s)
      | s => (entries? steps depth [] s).map fun (es, s) => (.table .braces es, s)
    | s, _ => scalar? s

/-- The values of an array up to its end; a comma may stand behind the last one. -/
def items? : (steps depth : Nat) → List Char → Option (List Toml × List Char)
  | 0, _, _ => none
  | steps + 1, depth, s =>
    match s with
    | ']' :: s => some ([], s)
    | s => do
      let (v, s) ← value? steps depth s
      match skipGaps false s with
      | ',' :: s => (items? steps depth (skipGaps false s)).map fun (vs, s) => (v :: vs, s)
      | ']' :: s => some ([v], s)
      | _ => none

/-- The entries of a table between braces up to its end. -/
def entries? : (steps depth : Nat) → List (String × Toml) → List Char →
    Option (List (String × Toml) × List Char)
  | 0, _, _, _ => none
  | steps + 1, depth, es, s => do
    let (ks, s) ← keys? mostParts s
    let k ← ks.getLast?
    match s with
    | '=' :: s =>
      let (v, s) ← value? steps depth (skipSpace s)
      let es ← enter? ks.dropLast k v es
      match skipSpace s with
      | ',' :: s => entries? steps depth es (skipSpace s)
      | '\x7d' :: s => some (es, s)
      | _ => none
    | _ => none

end

/-! ### Texts -/

/-- The table that the lines of a text add up to; keys without a header before them belong to the
table of the last header. -/
def lines? : (steps : Nat) → (root : List (String × Toml)) → (header : List String) →
    List Char → Option (List (String × Toml))
  | 0, _, _, _ => none
  | steps + 1, root, header, s =>
    match skipSpace s with
    | [] => some root
    | '[' :: '[' :: s => do
      let (ks, s) ← keys? mostParts (skipSpace s)
      let k ← ks.getLast?
      match s with
      | ']' :: ']' :: s => lines? steps (← append? ks.dropLast k root) ks (← lineEnd? s)
      | _ => none
    | '[' :: s => do
      let (ks, s) ← keys? mostParts (skipSpace s)
      let k ← ks.getLast?
      match s with
      | ']' :: s => lines? steps (← open? ks.dropLast k root) ks (← lineEnd? s)
      | _ => none
    | c :: s =>
      if c = '#' || (newline? (c :: s)).isSome then do
        lines? steps root header (← lineEnd? (c :: s))
      else do
        let (ks, s) ← keys? mostParts (c :: s)
        let k ← ks.getLast?
        match s with
        | '=' :: s =>
          let (v, s) ← value? (s.length + 1) deepest (skipSpace s)
          let root ← modify? .passed header (fun _ t => enter? ks.dropLast k v t) .header root
          lines? steps root header (← lineEnd? s)
        | _ => none

/-- The table that a text writes. -/
def read? (text : List Char) : Option (List (String × Toml)) :=
  let s := match text with
    | '\uFEFF' :: s => s
    | s => s
  lines? (s.length + 1) [] [] s

end YamlQuery.Toml
