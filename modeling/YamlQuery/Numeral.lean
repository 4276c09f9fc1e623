import YamlQuery.Double.Basic

/-!
# Numeral — numbers as texts hold them

YAML and JSON texts hold the integers that fit 64 bits, with or without a sign, and doubles.
-/

namespace YamlQuery

/-- An integer of the signed and the unsigned 64-bit range together. -/
structure WideInt where
  toInt : Int
  lower : -0x8000000000000000 ≤ toInt
  upper : toInt < 0x10000000000000000
deriving DecidableEq

namespace WideInt

/-- The integer, if it is in range. -/
def ofInt? (i : Int) : Option WideInt :=
  if h : -0x8000000000000000 ≤ i ∧ i < 0x10000000000000000 then some ⟨i, h.1, h.2⟩ else none

/-- A signed integer of 64 bits. -/
def ofInt64 (i : Int64) : WideInt :=
  ⟨i.toInt, by have := i.le_toInt; omega, by have := i.toInt_lt; omega⟩

/-- The signed integer of 64 bits, if it is one. -/
def toInt64? (i : WideInt) : Option Int64 :=
  if i.toInt < 0x8000000000000000 then some (Int64.ofInt i.toInt) else none

end WideInt

/-- A number of a YAML or JSON text. -/
inductive Numeral
  | integer (i : WideInt)
  | double (x : Double)
deriving DecidableEq

end YamlQuery
