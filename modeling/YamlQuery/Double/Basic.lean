/-!
# Double — IEEE 754 numbers of 64 bits

A `Double` is its bit pattern.  `shape` takes it apart: not a number, an infinity, or
`± m · 2^e` with `m < 2^53`.  `ofRatio` goes back: the double nearest to `± num / den`, a tie to the
even one, an infinity beyond the largest double.  All else is exact arithmetic on natural numbers
and one `ofRatio`.
-/

namespace YamlQuery

/-- A double, as its bit pattern. -/
structure Double where
  bits : UInt64
deriving DecidableEq, Repr, Inhabited

namespace Double

/-- What a bit pattern stands for; `finite negative m e` is `± m · 2^e`. -/
inductive Shape
  | nan
  | infinite (negative : Bool)
  | finite (negative : Bool) (mantissa : Nat) (exponent : Int)
deriving DecidableEq, Repr

/-- The weight `2^63` of the sign bit. -/
def signWeight : Nat := 0x8000000000000000

/-- The number `2^52` of fractions. -/
def fractions : Nat := 0x10000000000000

/-- The bit pattern taken apart. -/
def shape (x : Double) : Shape :=
  let n := x.bits.toNat
  let negative := decide (signWeight ≤ n)
  let biased : Nat := n / fractions % 2048
  let fraction : Nat := n % fractions
  if biased = 2047 then
    if fraction = 0 then .infinite negative else .nan
  else if biased = 0 then .finite negative fraction (-1074)
  else .finite negative (fraction + fractions) ((biased : Int) - 1075)

/-- The double with this sign and these lower 63 bits. -/
def ofMagnitude (negative : Bool) (n : Nat) : Double :=
  ⟨UInt64.ofNat (n + if negative then signWeight else 0)⟩

/-- The bits of an infinity without its sign. -/
def infinityBits : Nat := 2047 * fractions

def infinity (negative : Bool) : Double := ofMagnitude negative infinityBits

def nan : Double := ofMagnitude false (infinityBits + fractions / 2)

def zero (negative : Bool) : Double := ofMagnitude negative 0

/-- `num / den` rounded to a natural number, a tie to the even one. -/
def roundDiv (num den : Nat) : Nat :=
  let q := num / den
  let r := num % den
  if den < 2 * r || (2 * r == den && q % 2 == 1) then q + 1 else q

/-- The least exponent `e ≥ -1074` for which `num / den < 2^(53 + e)`. -/
def exponentFor (num den : Nat) : Int :=
  let guess := max ((num.log2 : Int) - den.log2 - 53) (-1074)
  let fits (e : Int) : Bool :=
    if 0 ≤ e then num < den * Nat.pow 2 (53 + e.toNat)
    else num * Nat.pow 2 (-e).toNat < den * (2 * fractions)
  if fits guess then guess else guess + 1

/-- The double nearest to `± num / den`. -/
def ofRatio (negative : Bool) (num den : Nat) : Double :=
  if num = 0 || den = 0 then zero negative
  else
    let e := exponentFor num den
    let m :=
      if 0 ≤ e then roundDiv num (den * Nat.pow 2 e.toNat)
      else roundDiv (num * Nat.pow 2 (-e).toNat) den
    ofMagnitude negative (min ((e + 1074).toNat * fractions + m) infinityBits)

/-- The double nearest to an integer. -/
def ofInt (i : Int) : Double := ofRatio (i < 0) i.natAbs 1

/-- The double nearest to `± digits · 10^exponent`.  Beyond these exponents every double is an
infinity or a zero, so no huge power is computed. -/
def ofDecimal (negative : Bool) (digits : Nat) (exponent : Int) : Double :=
  if digits = 0 then zero negative
  else
    let magnitude := exponent + (Nat.toDigits 10 digits).length
    if 400 < magnitude then infinity negative
    else if magnitude < -400 then zero negative
    else if 0 ≤ exponent then ofRatio negative (digits * Nat.pow 10 exponent.toNat) 1
    else ofRatio negative digits (Nat.pow 10 (-exponent).toNat)

def isNaN (x : Double) : Bool := x.shape == .nan

def isFinite (x : Double) : Bool :=
  match x.shape with
  | .finite .. => true
  | _ => false

/-- The sign, and the magnitude as a ratio of natural numbers, of a finite double. -/
def ratio? (x : Double) : Option (Bool × Nat × Nat) :=
  match x.shape with
  | .finite negative m e =>
    some (negative, if 0 ≤ e then (m * Nat.pow 2 e.toNat, 1) else (m, Nat.pow 2 (-e).toNat))
  | _ => none

/-- The rounded product of two finite doubles. -/
def mul (x y : Double) : Double :=
  match x.ratio?, y.ratio? with
  | some (s, n, d), some (t, m, c) => ofRatio (s != t) (n * m) (d * c)
  | _, _ => nan

/-- The rounded quotient of two finite doubles, the second not zero. -/
def div (x y : Double) : Double :=
  match x.ratio?, y.ratio? with
  | some (s, n, d), some (t, m, c) => ofRatio (s != t) (n * c) (d * m)
  | _, _ => nan

/-- The double with the other sign. -/
def neg (x : Double) : Double := ⟨x.bits ^^^ 0x8000000000000000⟩

/-- Two doubles that YAML takes for one key: not-a-number equals itself, and so do the zeros. -/
def sameKey (x y : Double) : Bool :=
  match x.shape, y.shape with
  | .nan, .nan => true
  | .finite _ 0 _, .finite _ 0 _ => true
  | a, b => a == b

end Double

end YamlQuery
