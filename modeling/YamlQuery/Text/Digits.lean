/-!
# Text.Digits — digits of a base and natural numbers

`digit? c` is the value of `0`–`9`, `a`–`z`, `A`–`Z`; `natOf? base s` reads a non-empty text of
digits of the base, and `hex width n` writes a number in base sixteen.
-/

namespace YamlQuery.Text

/-- The value of a digit: ten for `a` and `A`, eleven for `b` and `B`, and so on. -/
def digit? (c : Char) : Option Nat :=
  let n := c.toNat
  if 48 ≤ n && n ≤ 57 then some (n - 48)
  else if 97 ≤ n && n ≤ 122 then some (n - 87)
  else if 65 ≤ n && n ≤ 90 then some (n - 55)
  else none

/-- The value of a digit of the base. -/
def digitOf? (base : Nat) (c : Char) : Option Nat := (digit? c).filter (· < base)

/-- `c` is one of `0`–`9`. -/
def isDigit (c : Char) : Bool := (digitOf? 10 c).isSome

/-- `c` is a digit of base sixteen. -/
def isHex (c : Char) : Bool := (digitOf? 16 c).isSome

/-- The number that starts with `acc` and goes on with the digits of the text. -/
def natFrom? (base : Nat) (acc : Nat) : List Char → Option Nat
  | [] => some acc
  | c :: s =>
    match digitOf? base c with
    | some d => natFrom? base (acc * base + d) s
    | none => none

/-- The number that a non-empty text of digits of the base writes. -/
def natOf? (base : Nat) (s : List Char) : Option Nat :=
  if s.isEmpty then none else natFrom? base 0 s

/-- The digit character of a value below sixteen. -/
def hexDigit (upper : Bool) (n : Nat) : Char :=
  if n < 10 then Char.ofNat (48 + n) else Char.ofNat ((if upper then 55 else 87) + n)

/-- The last `width` digits of a number in base sixteen. -/
def hex (upper : Bool) : Nat → Nat → List Char
  | 0, _ => []
  | width + 1, n => hex upper width (n / 16) ++ [hexDigit upper (n % 16)]

/-- The decimal digits of a number. -/
def decimal (n : Nat) : List Char := Nat.toDigits 10 n

/-- The decimal text of an integer. -/
def decimalInt : Int → List Char
  | .ofNat n => decimal n
  | .negSucc n => '-' :: decimal (n + 1)

end YamlQuery.Text
