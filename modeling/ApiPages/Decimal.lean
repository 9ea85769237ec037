/-!
# Decimal literals

Digits and the size of a decimal literal.

* `digitValue?`, `digitsValue` — the value of a digit in any base up to 16, and of a digit string.
* `Decimal` — a literal `mantissa · 10 ^ exponent`.
* `Decimal.overflows` — the literal is too large for a double-precision number.
-/

namespace ApiPages

/-- The value of a digit, with `a` to `f` in both cases for ten to fifteen. -/
def digitValue? (c : Char) : Option Nat :=
  if '0' ≤ c ∧ c ≤ '9' then some (c.toNat - '0'.toNat)
  else if 'a' ≤ c ∧ c ≤ 'f' then some (c.toNat - 'a'.toNat + 10)
  else if 'A' ≤ c ∧ c ≤ 'F' then some (c.toNat - 'A'.toNat + 10)
  else none

/-- The character is a digit of the base. -/
def isDigitOf (base : Nat) (c : Char) : Bool :=
  match digitValue? c with
  | some d => decide (d < base)
  | none => false

/-- The number that a digit string denotes in a base. -/
def digitsValue (base : Nat) (ds : List Char) : Nat :=
  ds.foldl (fun n c => n * base + (digitValue? c).getD 0) 0

/-- The literal `mantissa · 10 ^ exponent`. -/
structure Decimal where
  /-- The digits before the exponent, as one number. -/
  mantissa : Nat
  /-- The power of ten. -/
  exponent : Int
deriving DecidableEq, Repr

namespace Decimal

/-- Half a unit above the largest double: from here on rounding gives infinity. -/
def doubleLimit : Nat := Nat.pow 2 1024 - Nat.pow 2 970

/-- Rounding the literal to double precision gives infinity. -/
def overflows (d : Decimal) : Bool :=
  if d.mantissa = 0 then false
  else
    let size : Int := (toString d.mantissa).length + d.exponent
    if size ≤ 308 then false
    else if 310 ≤ size then true
    else if 0 ≤ d.exponent then decide (doubleLimit ≤ d.mantissa * Nat.pow 10 d.exponent.toNat)
    else decide (doubleLimit * Nat.pow 10 (-d.exponent).toNat ≤ d.mantissa)

end Decimal

end ApiPages
