import Arcane.Lib.Digits
import Mathlib.Algebra.Ring.Int.Defs

/-!
# Decimal numbers

Python's `decimal` in its default context: 28 significant digits, half to even, no exponent above
999999. Only finite numbers are kept: `int()` refuses the others.

* `Decimal.ofText`: `Decimal(s)`.
* `Decimal.mul`: the product, rounded; within the precision it is exact (`mul_of_lt`).
* `Decimal.toIntegral`: `int(x.to_integral_value())`.
-/

open Text

/-- `± coeff * 10 ^ exp`. -/
structure Decimal where
  negative : Bool
  coeff : ℕ
  exp : ℤ
deriving DecidableEq

namespace Decimal

/-- `n / d`, to the nearest integer, the even one of two. -/
def divHalfEven (n d : ℕ) : ℕ :=
  if 2 * (n % d) < d then n / d
  else if d < 2 * (n % d) then n / d + 1
  else if (n / d) % 2 = 0 then n / d
  else n / d + 1

section Text

variable (U : Unicode)

/-- What stands after the mantissa: nothing, or `e` and an integer. -/
def exponent : Str → Option ℤ
  | [] => some 0
  | _ :: [] => none
  | _ :: c :: t =>
    if c = ofChar '-' then (readDigits 10 U.digit t).map fun n : ℕ => -(n : ℤ)
    else if c = ofChar '+' then (readDigits 10 U.digit t).map Int.ofNat
    else (readDigits 10 U.digit (c :: t)).map Int.ofNat

/-- The number without its sign: digits with a point somewhere, and an exponent. -/
def unsigned (negative : Bool) (s : Str) : Option Decimal := do
  let isE (c : CodePoint) : Bool := c = ofChar 'e' || c = ofChar 'E'
  let mantissa := s.takeWhile fun c => !isE c
  let whole := mantissa.takeWhile (· ≠ ofChar '.')
  let frac := (mantissa.dropWhile (· ≠ ofChar '.')).tail
  let coeff ← readDigits 10 U.digit (whole ++ frac)
  let exp ← exponent U (s.dropWhile fun c => !isE c)
  return ⟨negative, coeff, exp - frac.length⟩

/-- `Decimal(s)`; `none` where it raises, for infinities and for what is not a number. -/
def ofText (s : Str) : Option Decimal :=
  match (trim U.space s).filter (· ≠ ofChar '_') with
  | [] => none
  | c :: t =>
    if c = ofChar '-' then unsigned U true t
    else if c = ofChar '+' then unsigned U false t
    else unsigned U false (c :: t)

end Text

/-- The significant digits of the context. -/
def precision : ℕ := 28

/-- `Emax` of the context. -/
def maxExponent : ℤ := 999999

/-- The context's rounding; `none` is its `Overflow`. Below `Emin` more digits are lost, of numbers
that are no integers but zero. -/
def round (x : Decimal) : Option Decimal :=
  let excess := (natText x.coeff).length - precision
  let coeff := divHalfEven x.coeff (10 ^ excess)
  let exp := x.exp + excess
  if coeff ≠ 0 ∧ maxExponent < exp + (natText coeff).length - 1 then none
  else some ⟨x.negative, coeff, exp⟩

theorem divHalfEven_one (n : ℕ) : divHalfEven n 1 = n := by
  rw [divHalfEven, Nat.mod_one, if_pos (by decide), Nat.div_one]

theorem round_of_lt {x : Decimal} (hcoeff : x.coeff < 10 ^ precision)
    (hexp : x.exp + precision ≤ maxExponent) : round x = some x := by
  have hlen : (natText x.coeff).length ≤ precision := length_natText_le hcoeff
  have hsmall : ¬(x.coeff ≠ 0 ∧ maxExponent < x.exp + (natText x.coeff).length - 1) := by omega
  rw [round, Nat.sub_eq_zero_of_le hlen]
  simp only [pow_zero, divHalfEven_one, Int.natCast_zero, Int.add_zero, if_neg hsmall]

/-- `x * n`. -/
def mul (x : Decimal) (n : ℕ) : Option Decimal := round { x with coeff := x.coeff * n }

theorem mul_of_lt {x : Decimal} {n : ℕ} (hcoeff : x.coeff * n < 10 ^ precision)
    (hexp : x.exp + precision ≤ maxExponent) : x.mul n = some { x with coeff := x.coeff * n } :=
  round_of_lt hcoeff hexp

def toIntegral (x : Decimal) : ℤ :=
  let magnitude := if 0 ≤ x.exp then x.coeff * 10 ^ x.exp.toNat
    else divHalfEven x.coeff (10 ^ (-x.exp).toNat)
  if x.negative then -(magnitude : ℤ) else magnitude

end Decimal
