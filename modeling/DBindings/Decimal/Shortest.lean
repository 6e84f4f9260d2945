import DBindings.Decimal.Binary64

/-!
# The shortest decimal that reads back

A finite number `m · 2^e` stands for all reals that round to it; the ends of that interval count
iff `m` is even.  On the grid of multiples of `10^k` only the two neighbours of the number can be
nearest to it, so the coarsest grid with a neighbour inside the interval gives the fewest digits.

* `Binary64.shortest`     digits and exponent of that decimal;
* `Binary64.positional`   its text, never with an exponent.
-/

namespace DBindings.Binary64

/-- The reals that round to a number, and the number itself, over one denominator. -/
structure Interval where
  low : Nat
  value : Nat
  high : Nat
  den : Nat
  /-- the ends belong to the interval -/
  closed : Bool
  deriving Repr, DecidableEq

/-- The interval of `m · 2^e`, in quarters of a unit of the mantissa: below the least mantissa of a
binade the spacing is halved. -/
def interval (m : Nat) (e : Int) : Interval :=
  let low := if m = leastNormal ∧ leastExponent < e then 4 * m - 1 else 4 * m - 2
  let closed := m % 2 == 0
  match e - 2 with
  | .ofNat k => ⟨low <<< k, (4 * m) <<< k, (4 * m + 2) <<< k, 1, closed⟩
  | .negSucc k => ⟨low, 4 * m, 4 * m + 2, 1 <<< (k + 1), closed⟩

/-- `c · 10^k` lies in the interval. -/
def Interval.contains (i : Interval) (c : Nat) (k : Int) : Bool :=
  let (point, unit) := match k with
    | .ofNat k => (c * Nat.pow 10 k * i.den, 1)
    | .negSucc k => (c * i.den, Nat.pow 10 (k + 1))
  if i.closed then i.low * unit ≤ point && point ≤ i.high * unit
  else i.low * unit < point && point < i.high * unit

/-- The neighbour of the value on the grid of `10^k` that lies in the interval, the nearer of two
and the upper one of a tie. -/
def Interval.onGrid? (i : Interval) (k : Int) : Option Nat :=
  let (num, den) := match k with
    | .ofNat k => (i.value, i.den * Nat.pow 10 k)
    | .negSucc k => (i.value * Nat.pow 10 (k + 1), i.den)
  let c := num / den
  match i.contains c k, i.contains (c + 1) k with
  | true, true => some (if 2 * (num % den) < den then c else c + 1)
  | true, false => some c
  | false, true => some (c + 1)
  | false, false => none

/-- The first of the grids `10^k`, `10^(k-1)`, … that has a point in the interval. -/
def Interval.search (i : Interval) : Nat → Int → Nat × Int
  | 0, k => (0, k)
  | steps + 1, k =>
    match i.onGrid? k with
    | some c => (c, k)
    | none => i.search steps (k - 1)

/-- Digits `d` and exponent `k` of the shortest decimal `d · 10^k` that reads back as `m · 2^e`.
The first grid tried is wider than the number, and seventeen digits always suffice. -/
def shortest (m : Nat) (e : Int) : Nat × Int :=
  if m = 0 then (0, 0)
  else (interval m e).search 24 (((Nat.log2 m : Int) + 1 + e) * 30103 / 100000 + 2)

/-- The text of `digits · 10^exponent` in positional notation. -/
def positional (digits : Nat) (exponent : Int) : String :=
  let text := (toString digits).toList
  match exponent with
  | .ofNat k => String.ofList (text ++ if digits = 0 then [] else List.replicate k '0')
  | .negSucc k =>
    let places := k + 1
    let padded := List.replicate (places + 1 - text.length) '0' ++ text
    let cut := padded.length - places
    String.ofList (padded.take cut ++ '.' :: padded.drop cut)

end DBindings.Binary64
