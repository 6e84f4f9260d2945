import DBindings.Decimal.Binary64

/-!
# JSON values

A value keeps what its text says and decides nothing about it: a number is its digits, and an object
is its pairs in order, repeated keys included.

* `Json.Number.nat?`, `Json.Number.int?`, `Json.Number.binary64?`   the readings of a number;
* `Json.Number.binary64?` keeps the leading digits that fit in 64 bits and scales them by a power of
  ten, each step rounded by itself.
-/

namespace DBindings.Json

/-- The digits of a number as written. -/
structure Number where
  negative : Bool
  whole : List Nat
  /-- digits behind the point, if there is one -/
  fraction : Option (List Nat)
  /-- sign and digits of the exponent, if there is one -/
  exponent : Option (Bool × List Nat)
  deriving Repr, DecidableEq, Inhabited

end Json

/-- A JSON value.  A text is absent when its escapes spell half of a surrogate pair. -/
inductive Json where
  | null
  | bool (value : Bool)
  | number (value : Json.Number)
  | text (value : Option String)
  | array (items : List Json)
  | object (pairs : List (Option String × Json))
  deriving Inhabited

namespace Json

namespace Number

/-- The number that digits write in base ten. -/
def ofDigits (digits : List Nat) : Nat := digits.foldl (fun n d => 10 * n + d) 0

/-- The number is written as an integer. -/
def isIntegral (n : Number) : Bool := n.fraction.isNone && n.exponent.isNone

/-- A natural number no larger than `bound`; the text `-0` is not one. -/
def nat? (bound : Nat) (n : Number) : Option Nat :=
  let value := ofDigits n.whole
  if n.isIntegral && !n.negative && value ≤ bound then some value else none

/-- An integer between the bounds; `-0` is zero. -/
def int? (low high : Int) (n : Number) : Option Int :=
  let size : Int := ofDigits n.whole
  let value := if n.negative then -size else size
  if n.isIntegral && low ≤ value && value ≤ high then some value else none

/-- The largest significand. -/
def maxSignificand : Nat := UInt64.size - 1

/-- Reads digits while the significand fits; gives back the significand and the digits left. -/
def take (significand : Nat) : List Nat → Nat × List Nat
  | [] => (significand, [])
  | d :: ds =>
    if 10 * significand + d ≤ maxSignificand then take (10 * significand + d) ds
    else (significand, d :: ds)

/-- Divides by `10^308` until the rest of the exponent is in the table of powers or nothing is
left. -/
def scaleDown (x : Binary64) : Nat → Nat → Binary64
  | 0, _ => x
  | steps + 1, k =>
    if k ≤ 308 then x.overPowerOfTen k
    else if x.isZero then x
    else scaleDown (x.overPowerOfTen 308) steps (k - 308)

/-- `significand · 10^exponent`, scaled down in steps when the exponent is beyond the table of
powers; `none` when it is too large. -/
def scale? (significand : Nat) (exponent : Int) : Option Binary64 :=
  let x := Binary64.ofNat significand
  match exponent with
  | .ofNat k =>
    if k ≤ 308 then
      let y := x.timesPowerOfTen k
      if y.isInfinite then none else some y
    else if x.isZero then some x else none
  | .negSucc k => some (scaleDown x ((k + 1) / 308 + 1) (k + 1))

/-- The largest exponent that is read as a number. -/
def maxExponent : Nat := (1 <<< 31) - 1

/-- The magnitude of a number with a fraction or an exponent. -/
def magnitude? (n : Number) : Option Binary64 :=
  let (lead, skipped) := take 0 n.whole
  let shift : Int := skipped.length
  let (significand, shift) := match n.fraction with
    | none => (lead, shift)
    | some ds =>
      let (significand, left) := take lead ds
      (significand, shift - ((ds.length - left.length : Nat) : Int))
  match n.exponent with
  | none => scale? significand shift
  | some (negative, ds) =>
    let e := ofDigits ds
    if maxExponent < e then
      if significand ≠ 0 && !negative then none else some (Binary64.zero false)
    else scale? significand (if negative then shift - e else shift + e)

/-- The number as a binary float; `none` when it is out of range. -/
def binary64? (n : Number) : Option Binary64 :=
  let value := ofDigits n.whole
  if n.isIntegral && value ≤ maxSignificand && (!n.negative || value ≤ 1 <<< 63) then
    some ((Binary64.ofNat value).withSign n.negative)
  else n.magnitude?.map (Binary64.withSign n.negative)

end Number

end DBindings.Json
