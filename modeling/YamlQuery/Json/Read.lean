import YamlQuery.Document.Entries
import YamlQuery.Json.Basic
import YamlQuery.Text.Digits

/-!
# Json.Read — JSON text to values

A reader takes its part from the front of the text and gives the rest.  Containers nest at most
127 deep.  A member name that comes again sets the value at its first place.

A number without fraction and exponent that fits 64 bits is an integer, except `-0`.  Any other is
a double: its leading digits, as many as fit 64 bits, rounded to a double and then multiplied or
divided by a power of ten, so that the last bit may differ from the nearest double.
-/

namespace YamlQuery.Json

open YamlQuery.Text

/-- The text behind spaces, tabs and line ends. -/
def skipSpace : List Char → List Char
  | [] => []
  | c :: s => if c == ' ' || c == '\n' || c == '\t' || c == '\r' then skipSpace s else c :: s

/-! ### Strings -/

/-- Four hexadecimal digits at the start of a text. -/
def hex4? : List Char → Option (Nat × List Char)
  | a :: b :: c :: d :: s => (natOf? 16 [a, b, c, d]).map (·, s)
  | _ => none

/-- The character of an escape `\u`, of two of them for a character beyond the first plane. -/
def unicodeEscape? (s : List Char) : Option (Char × List Char) :=
  match hex4? s with
  | none => none
  | some (n, s) =>
    if 0xDC00 ≤ n && n ≤ 0xDFFF then none
    else if 0xD800 ≤ n && n ≤ 0xDBFF then
      match s with
      | '\\' :: 'u' :: s =>
        match hex4? s with
        | some (m, s) =>
          if 0xDC00 ≤ m && m ≤ 0xDFFF then
            some (Char.ofNat (0x10000 + (n - 0xD800) * 0x400 + (m - 0xDC00)), s)
          else none
        | none => none
      | _ => none
    else some (Char.ofNat n, s)

/-- The character of an escape with one letter. -/
def shortEscape? : Char → Option Char
  | '"' => some '"'
  | '\\' => some '\\'
  | '/' => some '/'
  | 'b' => some '\x08'
  | 'f' => some '\x0c'
  | 'n' => some '\n'
  | 'r' => some '\r'
  | 't' => some '\t'
  | _ => none

/-- The next character of a string behind its opening quote: `none` inside for the closing quote. -/
def stringStep? : List Char → Option (Option Char × List Char)
  | [] => none
  | '"' :: s => some (none, s)
  | '\\' :: 'u' :: s => (unicodeEscape? s).map fun (c, s) => (some c, s)
  | '\\' :: c :: s => (shortEscape? c).map (some ·, s)
  | c :: s => if c.toNat < 0x20 || c == '\\' then none else some (some c, s)

/-- The rest of a string behind its opening quote.  The fuel is a bound on its length. -/
def stringFrom? : Nat → List Char → Option (List Char × List Char)
  | 0, _ => none
  | fuel + 1, s =>
    match stringStep? s with
    | none => none
    | some (none, s) => some ([], s)
    | some (some c, s) => (stringFrom? fuel s).map fun (cs, s) => (c :: cs, s)

/-- The rest of a string behind its opening quote. -/
def string? (s : List Char) : Option (String × List Char) :=
  (stringFrom? (s.length + 1) s).map fun (cs, s) => (String.ofList cs, s)

/-! ### Numbers -/

/-- The largest significand that is read digit by digit. -/
def significandLimit : Nat := 0xFFFFFFFFFFFFFFFF

/-- The digits that a text starts with: the significand as long as it fits, and how many digits
behind it were not taken in. -/
def wholeDigits (significand dropped : Nat) : List Char → Nat × Nat × List Char
  | [] => (significand, dropped, [])
  | c :: s =>
    match digitOf? 10 c with
    | none => (significand, dropped, c :: s)
    | some d =>
      if dropped = 0 ∧ significand * 10 + d ≤ significandLimit then
        wholeDigits (significand * 10 + d) 0 s
      else wholeDigits significand (dropped + 1) s

/-- The digits behind the point: the significand as long as it fits, how many digits it took in,
and whether it is full. -/
def fractionDigits (significand taken : Nat) (full : Bool) :
    List Char → Nat × Nat × Bool × List Char
  | [] => (significand, taken, full, [])
  | c :: s =>
    match digitOf? 10 c with
    | none => (significand, taken, full, c :: s)
    | some d =>
      if !full && significand * 10 + d ≤ significandLimit then
        fractionDigits (significand * 10 + d) (taken + 1) false s
      else fractionDigits significand taken true s

/-- The double nearest to a power of ten. -/
def powerOfTen (n : Nat) : Double := .ofDecimal false 1 n

def isZero (x : Double) : Bool := x = .zero false

/-- Division by `10^n` in steps of `10^308`. -/
def scaleDown (x : Double) (n : Nat) : Double :=
  if n ≤ 308 then x.div (powerOfTen n)
  else if isZero x then x
  else scaleDown (x.div (powerOfTen 308)) (n - 308)
termination_by n

/-- A significand times a power of ten; `none` beyond the largest double. -/
def scale? (negative : Bool) (significand : Nat) (exponent : Int) : Option Double :=
  let x := Double.ofInt significand
  let y :=
    if exponent < 0 then some (scaleDown x (-exponent).toNat)
    else if exponent ≤ 308 then some (x.mul (powerOfTen exponent.toNat))
    else if significand = 0 then some x
    else none
  match y with
  | some y => if y.isFinite then some (if negative then y.neg else y) else none
  | none => none

/-- The exponents that are taken at their value; a larger one stands for any. -/
def exponentLimit : Int := 0x7FFFFFFF

/-- The exponent behind `e`, and the double it gives. -/
def exponentPart? (negative : Bool) (significand : Nat) (start : Int) (s : List Char) :
    Option (Numeral × List Char) :=
  let (down, s) :=
    match s with
    | '+' :: s => (false, s)
    | '-' :: s => (true, s)
    | s => (false, s)
  let (digits, s') := s.span isDigit
  match natOf? 10 digits with
  | none => none
  | some n =>
    let x :=
      if (n : Int) ≤ exponentLimit then
        scale? negative significand (start + if down then -(n : Int) else n)
      else if significand ≠ 0 && !down then none
      else some (.zero negative)
    x.map fun x => (.double x, s')

/-- What follows the digits of a number that is to be a double. -/
def doubleTail? (negative : Bool) (significand : Nat) (start : Int) (s : List Char) :
    Option (Numeral × List Char) :=
  match s with
  | c :: rest =>
    if c == 'e' || c == 'E' then exponentPart? negative significand start rest
    else (scale? negative significand start).map fun x => (.double x, s)
  | [] => (scale? negative significand start).map fun x => (.double x, s)

/-- A significand as an integer; minus zero, and what does not fit, as a double. -/
def integral (negative : Bool) (significand : Nat) : Numeral :=
  if negative && significand = 0 then .double (.zero true)
  else
    let i : Int := if negative then -(significand : Int) else significand
    match WideInt.ofInt? i with
    | some i => .integer i
    | none => .double (.ofInt i)

/-- A number behind its sign. -/
def unsigned? (negative : Bool) (s : List Char) : Option (Numeral × List Char) :=
  let leadingZero :=
    match s with
    | '0' :: d :: _ => isDigit d
    | _ => false
  if leadingZero || !(s.head?.any isDigit) then none
  else
    let (significand, dropped, s) := wholeDigits 0 0 s
    match s with
    | '.' :: s =>
      let (significand, taken, full, s) := fractionDigits significand 0 false s
      if taken = 0 && !full then none
      else doubleTail? negative significand ((dropped : Int) - taken) s
    | c :: rest =>
      if c == 'e' || c == 'E' || 0 < dropped then
        doubleTail? negative significand dropped (c :: rest)
      else some (integral negative significand, c :: rest)
    | [] =>
      if 0 < dropped then doubleTail? negative significand dropped []
      else some (integral negative significand, [])

/-- A number. -/
def number? : List Char → Option (Numeral × List Char)
  | '-' :: s => unsigned? true s
  | s => unsigned? false s

/-! ### Values -/

mutual

/-- A value at the start of a text that starts with no space.  `depth` bounds the containers that
may still open, the fuel the values that may still be read. -/
def value? : Nat → Nat → List Char → Option (Json × List Char)
  | 0, _, _ => none
  | fuel + 1, depth, s =>
    match s with
    | 'n' :: 'u' :: 'l' :: 'l' :: s => some (.null, s)
    | 't' :: 'r' :: 'u' :: 'e' :: s => some (.boolean true, s)
    | 'f' :: 'a' :: 'l' :: 's' :: 'e' :: s => some (.boolean false, s)
    | '"' :: s => (string? s).map fun (t, s) => (.string t, s)
    | '[' :: s =>
      match depth with
      | 0 => none
      | depth + 1 =>
        match skipSpace s with
        | ']' :: s => some (.array [], s)
        | s => (items? fuel depth s).map fun (vs, s) => (.array vs, s)
    | '\x7b' :: s =>
      match depth with
      | 0 => none
      | depth + 1 =>
        match skipSpace s with
        | '\x7d' :: s => some (.object [], s)
        | s => (members? fuel depth s).map fun (ms, s) => (.object (Entries.ofList ms), s)
    | s => (number? s).map fun (n, s) => (.number n, s)

/-- The items of an array from one of them on, and the closing bracket. -/
def items? : Nat → Nat → List Char → Option (List Json × List Char)
  | 0, _, _ => none
  | fuel + 1, depth, s =>
    match value? fuel depth s with
    | none => none
    | some (v, s) =>
      match skipSpace s with
      | ']' :: s => some ([v], s)
      | ',' :: s => (items? fuel depth (skipSpace s)).map fun (vs, s) => (v :: vs, s)
      | _ => none

/-- The members of an object from one of them on, and the closing brace. -/
def members? : Nat → Nat → List Char → Option (List (String × Json) × List Char)
  | 0, _, _ => none
  | fuel + 1, depth, s =>
    match s with
    | '"' :: s =>
      match string? s with
      | none => none
      | some (k, s) =>
        match skipSpace s with
        | ':' :: s =>
          match value? fuel depth (skipSpace s) with
          | none => none
          | some (v, s) =>
            match skipSpace s with
            | '\x7d' :: s => some ([(k, v)], s)
            | ',' :: s => (members? fuel depth (skipSpace s)).map fun (ms, s) => ((k, v) :: ms, s)
            | _ => none
        | _ => none
    | _ => none

end

/-- The containers that may be open at once. -/
def depthLimit : Nat := 127

/-- The value that a text holds, with nothing but space around it. -/
def read? (s : List Char) : Option Json :=
  match value? (s.length + 1) depthLimit (skipSpace s) with
  | some (v, s) => if (skipSpace s).isEmpty then some v else none
  | none => none

end YamlQuery.Json
