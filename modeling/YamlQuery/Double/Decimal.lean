import YamlQuery.Double.Basic
import YamlQuery.Text.Digits

/-!
# Double.Decimal — decimal text of doubles

* `shortest`: the fewest digits `d₁…dₙ` and the exponent `k` with `0.d₁…dₙ · 10^k` read back as the
  double; of two such texts the nearer one.
* `Layout`: the decisions of a format about those digits, and `Layout.write`, which takes them.
* `literal?` reads sign, digits, point and exponent; `ofText?` reads a double as a program argument
  would be read, the words for infinity and not-a-number included.
-/

namespace YamlQuery.Double

open YamlQuery.Text

/-! ### Shortest digits -/

/-- The digits `d` and the exponent `k` of the decimal number `0.d · 10^k`. -/
structure Digits where
  digits : List Char
  exponent : Int
deriving DecidableEq, Repr

/-- The reals that round to a finite positive double, all over one denominator. -/
structure Interval where
  low : Nat
  value : Nat
  high : Nat
  den : Nat
  closed : Bool

/-- The interval of `m · 2^e`: half way to either neighbour, the ends included iff `m` is even.
The lower neighbour of a power of two is nearer. -/
def interval (m : Nat) (e : Int) : Interval :=
  let below := if m = fractions && -1074 < e then 1 else 2
  let scale := Nat.pow 2 (e - 2).toNat
  ⟨(4 * m - below) * scale, 4 * m * scale, (4 * m + 2) * scale, Nat.pow 2 (2 - e).toNat,
    m % 2 == 0⟩

/-- `n · 10^p` reads back as the double of the interval. -/
def Interval.holds (i : Interval) (n : Nat) (p : Int) : Bool :=
  let x := n * Nat.pow 10 p.toNat * i.den
  let unit := Nat.pow 10 (-p).toNat
  if i.closed then i.low * unit ≤ x && x ≤ i.high * unit else i.low * unit < x && x < i.high * unit

/-- The multiple of `10^p` next to the value that reads back, the nearer one if both do; a tie goes
up if `tieUp`, else to the even one. -/
def Interval.nearest? (i : Interval) (tieUp : Bool) (p : Int) : Option Nat :=
  let num := i.value * Nat.pow 10 (-p).toNat
  let den := i.den * Nat.pow 10 p.toNat
  let n := num / den
  let r := num % den
  let up := den < 2 * r || (2 * r == den && (tieUp || n % 2 == 1))
  match i.holds n p && n != 0, i.holds (n + 1) p with
  | true, true => some (if up then n + 1 else n)
  | true, false => some n
  | false, true => some (n + 1)
  | false, false => none

/-- The grids from `10^p` down to finer ones, until one has a number that reads back. -/
def Interval.search (i : Interval) (tieUp : Bool) : Nat → Int → Nat × Int
  | 0, p => (i.value * Nat.pow 10 (-p).toNat / (i.den * Nat.pow 10 p.toNat), p)
  | fuel + 1, p =>
    match i.nearest? tieUp p with
    | some n => (n, p)
    | none => i.search tieUp fuel (p - 1)

/-- The exponent `k` with `10^(k-1) ≤ value < 10^k`. -/
def Interval.magnitude (i : Interval) : Int :=
  if i.den ≤ i.value then ((Nat.toDigits 10 (i.value / i.den)).length : Int)
  else
    let guess := (Nat.toDigits 10 (i.den / i.value)).length
    if i.den ≤ i.value * Nat.pow 10 (guess - 1) then 2 - (guess : Int) else 1 - (guess : Int)

/-- The zeros that a text of digits ends with do not count. -/
def stripZeros (s : List Char) : List Char := (s.reverse.dropWhile (· == '0')).reverse

/-- The shortest digits of `m · 2^e`. -/
def shortest (tieUp : Bool) (m : Nat) (e : Int) : Digits :=
  if m = 0 then ⟨['0'], 1⟩
  else
    let i := interval m e
    let (n, p) := i.search tieUp 17 (i.magnitude - 1)
    let digits := decimal n
    ⟨stripZeros digits, p + digits.length⟩

/-! ### Layout -/

/-- How a format writes digits: the texts of not-a-number and infinity, whether whole numbers get
`.0`, which decimal exponents are written out (`none`: all), and the sign of an exponent. -/
structure Layout where
  nan : String
  infinity : String
  point : Bool
  positional : Option (Int × Int)
  plus : String
  tieUp : Bool

/-- All digits written out: `1`, `0.25`, `1000000`. -/
def Layout.plain (point : Bool) (d : Digits) : List Char :=
  let n := d.digits.length
  if d.exponent ≤ 0 then
    ['0', '.'] ++ List.replicate (-d.exponent).toNat '0' ++ d.digits
  else if (n : Int) ≤ d.exponent then
    d.digits ++ List.replicate (d.exponent.toNat - n) '0' ++ if point then ['.', '0'] else []
  else d.digits.take d.exponent.toNat ++ '.' :: d.digits.drop d.exponent.toNat

/-- One digit, the others behind a point, and an exponent. -/
def Layout.scientific (plus : String) (d : Digits) : List Char :=
  let e := d.exponent - 1
  let fraction := d.digits.drop 1
  d.digits.take 1 ++ (if fraction.isEmpty then [] else '.' :: fraction) ++
    'e' :: (if e < 0 then [] else plus.toList) ++ decimalInt e

/-- The digits of a finite magnitude as the layout wants them. -/
def Layout.digits (l : Layout) (d : Digits) : List Char :=
  match l.positional with
  | none => plain l.point d
  | some (least, most) =>
    if least ≤ d.exponent && d.exponent ≤ most then plain l.point d else scientific l.plus d

/-- The text of a double. -/
def Layout.write (l : Layout) (x : Double) : List Char :=
  match x.shape with
  | .nan => l.nan.toList
  | .infinite negative => (if negative then ['-'] else []) ++ l.infinity.toList
  | .finite negative m e => (if negative then ['-'] else []) ++ l.digits (shortest l.tieUp m e)

/-- Plain text: every digit written out, whole numbers without a point. -/
def Layout.text : Layout := ⟨"NaN", "inf", false, none, "", true⟩

/-- YAML: a point or an exponent in every number, exponents from `-5` to `15` written out. -/
def Layout.yaml : Layout := ⟨".nan", ".inf", true, some (-4, 16), "", false⟩

/-- JSON, which has no text for infinities and not-a-number. -/
def Layout.json : Layout := ⟨"null", "null", true, some (-4, 16), "+", false⟩

/-! ### Reading -/

/-- The digits at the start of a text, their value behind `acc`, and how many they are. -/
def takeDigits (acc count : Nat) : List Char → Nat × Nat × List Char
  | [] => (acc, count, [])
  | c :: s =>
    match digitOf? 10 c with
    | some d => takeDigits (acc * 10 + d) (count + 1) s
    | none => (acc, count, c :: s)

/-- A sign at the start of a text. -/
def takeSign : List Char → Bool × List Char
  | '-' :: s => (true, s)
  | '+' :: s => (false, s)
  | s => (false, s)

/-- `e` or `E`, a sign and at least one digit, up to the end of the text; or nothing at all. -/
def exponent? : List Char → Option Int
  | [] => some 0
  | c :: s =>
    if c == 'e' || c == 'E' then
      let (negative, s) := takeSign s
      match takeDigits 0 0 s with
      | (n, _ + 1, []) => some (if negative then -(n : Int) else n)
      | _ => none
    else none

/-- Digits with an optional point, at least one digit in all, and an optional exponent: the digits
as one number, and the power of ten it is to be multiplied by. -/
def literal? (s : List Char) : Option (Nat × Int) :=
  let (whole, count, s) := takeDigits 0 0 s
  let (digits, fraction, s) :=
    match s with
    | '.' :: s =>
      let (digits, fraction, s) := takeDigits whole 0 s
      (digits, fraction, s)
    | s => (whole, 0, s)
  if count + fraction = 0 then none
  else (exponent? s).map fun e => (digits, e - fraction)

/-- The double that a text writes: a sign, then digits or one of the words `inf`, `infinity` and
`nan` in any case of letters. -/
def ofText? (s : List Char) : Option Double :=
  let (negative, s) := takeSign s
  let word := String.ofList (s.map Char.toLower)
  if word = "inf" || word = "infinity" then some (infinity negative)
  else if word = "nan" then some nan
  else (literal? s).map fun (digits, e) => ofDecimal negative digits e

end YamlQuery.Double
