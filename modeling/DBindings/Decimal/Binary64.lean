/-!
# Binary floating-point numbers of 64 bits

Numbers are held by value: a finite one is `m · 2^e` with `m < 2^53`, and either `2^52 ≤ m` or `e`
is the least exponent, so equal numbers of one sign are equal terms.  Arithmetic is exact on
ratios of natural numbers, followed by one rounding.

* `Binary64.ofRatio`     the nearest number to a ratio, a tie going to the even mantissa;
* `Binary64.ofDecimal`   the nearest number to `d · 10^k`.
-/

namespace DBindings

/-- A 64-bit binary floating-point number; the sign of a NaN is not kept. -/
inductive Binary64 where
  | nan
  | infinite (negative : Bool)
  | finite (negative : Bool) (mantissa : Nat) (exponent : Int)
  deriving Repr, DecidableEq, Inhabited

namespace Binary64

/-- The exponent of the subnormal numbers. -/
def leastExponent : Int := -1074

/-- The exponent of the largest numbers. -/
def greatestExponent : Int := 971

/-- The least mantissa of a normal number, `2^52`. -/
def leastNormal : Nat := 1 <<< 52

def zero (negative : Bool) : Binary64 := finite negative 0 leastExponent

/-- `num / den` rounded to an integer, a half going to the even neighbour. -/
def roundHalfEven (num den : Nat) : Nat :=
  let q := num / den
  let r := num % den
  if 2 * r < den then q
  else if den < 2 * r then q + 1
  else q + q % 2

/-- `num · 2^(-e) / den` as a pair of numerator and denominator. -/
def scaled (num den : Nat) (e : Int) : Nat × Nat :=
  match e with
  | .ofNat k => (num, den <<< k)
  | .negSucc k => (num <<< (k + 1), den)

/-- The exponent at which `num / den` has a 53-bit integer part, no less than the least exponent.
The logarithms fix it up to one. -/
def exponentFor (num den : Nat) : Int :=
  let guess : Int := (Nat.log2 num : Int) - (Nat.log2 den : Int) - 52
  let (n, d) := scaled num den guess
  max leastExponent (if n / d < leastNormal then guess - 1 else guess)

/-- A rounded mantissa may have reached `2^53`; the result beyond the range is infinite. -/
def normalize (negative : Bool) (mantissa : Nat) (exponent : Int) : Binary64 :=
  let (m, e) := if mantissa = 2 * leastNormal then (leastNormal, exponent + 1)
    else (mantissa, exponent)
  if greatestExponent < e then infinite negative else finite negative m e

/-- The number nearest to `num / den`, which must not be divided by zero. -/
def ofRatio (negative : Bool) (num den : Nat) : Binary64 :=
  if num = 0 then zero negative
  else
    let e := exponentFor num den
    let (n, d) := scaled num den e
    normalize negative (roundHalfEven n d) e

def ofNat (n : Nat) : Binary64 := ofRatio false n 1

/-- The number nearest to `digits · 10^exponent`.  Far outside the range nothing is computed: the
result is then zero or infinite whatever the digits are. -/
def ofDecimal (negative : Bool) (digits : Nat) (exponent : Int) : Binary64 :=
  let magnitude : Int := (Nat.log2 digits : Int) / 4 + exponent
  if digits = 0 then zero negative
  else if 400 < magnitude then infinite negative
  else if (Nat.log2 digits : Int) + exponent < -400 then zero negative
  else match exponent with
    | .ofNat k => ofRatio negative (digits * Nat.pow 10 k) 1
    | .negSucc k => ofRatio negative digits (Nat.pow 10 (k + 1))

/-- The value as a ratio, for a finite number. -/
def ratio? : Binary64 → Option (Nat × Nat)
  | finite _ m e =>
    match e with
    | .ofNat k => some (m <<< k, 1)
    | .negSucc k => some (m, 1 <<< (k + 1))
  | _ => none

def isInfinite : Binary64 → Bool
  | infinite _ => true
  | _ => false

def isZero : Binary64 → Bool
  | finite _ 0 _ => true
  | _ => false

def withSign (negative : Bool) : Binary64 → Binary64
  | nan => nan
  | infinite _ => infinite negative
  | finite _ m e => finite negative m e

/-- `x · 10^k` for a nonnegative finite `x`, with the power rounded before the product is. -/
def timesPowerOfTen (x : Binary64) (k : Nat) : Binary64 :=
  match x.ratio?, (ofNat (Nat.pow 10 k)).ratio? with
  | some (a, b), some (c, d) => ofRatio false (a * c) (b * d)
  | _, _ => infinite false

/-- `x / 10^k` for a nonnegative finite `x`, with the power rounded before the quotient is. -/
def overPowerOfTen (x : Binary64) (k : Nat) : Binary64 :=
  match x.ratio?, (ofNat (Nat.pow 10 k)).ratio? with
  | some (a, b), some (c, d) => ofRatio false (a * d) (b * c)
  | _, _ => zero false

end Binary64

end DBindings
