import DBindings.Decimal.Binary64

/-!
# Reading decimal text

A decimal is an optional sign, digits with at most one point among or around them, and an optional
exponent; `inf`, `infinity` and `nan` are read in any case.

* `Binary64.parse?`   the number nearest to a decimal.
-/

namespace DBindings.Binary64

/-- The digits at the start of a text and the rest. -/
def spanDigits (s : List Char) : List Char × List Char := s.span fun c => '0' ≤ c && c ≤ '9'

/-- The number that digits write in base ten. -/
def ofDigitChars (ds : List Char) : Nat := ds.foldl (fun n c => 10 * n + (c.toNat - '0'.toNat)) 0

/-- The exponent at the end of a decimal; none at all is zero. -/
def parseExponent? : List Char → Option Int
  | [] => some 0
  | c :: rest =>
    if c = 'e' ∨ c = 'E' then
      let (negative, digits) : Bool × List Char := match rest with
        | '+' :: ds => (false, ds)
        | '-' :: ds => (true, ds)
        | ds => (false, ds)
      match spanDigits digits with
      | ([], _) => none
      | (ds, []) =>
        let e : Int := ofDigitChars ds
        some (if negative then -e else e)
      | _ => none
    else none

/-- A decimal behind its sign. -/
def parseUnsigned? (negative : Bool) (s : List Char) : Option Binary64 :=
  let lower := s.map Char.toLower
  if lower = "inf".toList ∨ lower = "infinity".toList then some (infinite negative)
  else if lower = "nan".toList then some nan
  else
    let (whole, rest) := spanDigits s
    let (fraction, rest) := match rest with
      | '.' :: rest => spanDigits rest
      | rest => ([], rest)
    if whole.isEmpty && fraction.isEmpty then none
    else (parseExponent? rest).map fun e =>
      ofDecimal negative (ofDigitChars (whole ++ fraction)) (e - (fraction.length : Int))

def parse? (s : String) : Option Binary64 :=
  match s.toList with
  | '+' :: rest => parseUnsigned? false rest
  | '-' :: rest => parseUnsigned? true rest
  | rest => parseUnsigned? false rest

end DBindings.Binary64
