import DBindings.Decimal.Reader

/-!
# Numbers, truth values, dates and times of TOML

Each reader takes the text of the value from its start and gives back what is left; the values
themselves are not needed, only that they are well formed and in range.
-/

namespace DBindings.Toml

def isDigit (c : Char) : Bool := '0' ≤ c && c ≤ '9'

def isHexDigit (c : Char) : Bool :=
  isDigit c || ('a' ≤ c && c ≤ 'f') || ('A' ≤ c && c ≤ 'F')

def digitValue (c : Char) : Nat :=
  if isDigit c then c.toNat - '0'.toNat
  else if 'a' ≤ c then c.toNat - 'a'.toNat + 10
  else c.toNat - 'A'.toNat + 10

/-- Digits behind a first one, with single underscores between digits. -/
def moreDigits (ok : Char → Bool) : List Char → List Char × List Char
  | '_' :: c :: rest =>
    if ok c then
      let (ds, rest) := moreDigits ok rest
      (c :: ds, rest)
    else ([], '_' :: c :: rest)
  | c :: rest =>
    if ok c then
      let (ds, rest) := moreDigits ok rest
      (c :: ds, rest)
    else ([], c :: rest)
  | [] => ([], [])

/-- Digits with single underscores between them. -/
def digits? (ok : Char → Bool) : List Char → Option (List Char × List Char)
  | c :: rest =>
    if ok c then
      let (ds, rest) := moreDigits ok rest
      some (c :: ds, rest)
    else none
  | [] => none

/-- The number that digits write in a base. -/
def numberOf (base : Nat) (ds : List Char) : Nat :=
  ds.foldl (fun n c => base * n + digitValue c) 0

/-- So many digits. -/
def fixedDigits? : Nat → List Char → Option (List Char × List Char)
  | 0, rest => some ([], rest)
  | n + 1, c :: rest =>
    if isDigit c then (fixedDigits? n rest).map fun (ds, rest) => (c :: ds, rest) else none
  | _ + 1, [] => none

/-- A number of so many digits between bounds. -/
def field? (width low high : Nat) (s : List Char) : Option (Nat × List Char) := do
  let (ds, rest) ← fixedDigits? width s
  let n := numberOf 10 ds
  if low ≤ n ∧ n ≤ high then return (n, rest) else none

def char? (c : Char) : List Char → Option (List Char)
  | d :: rest => if d = c then some rest else none
  | [] => none

def isLeapYear (year : Nat) : Bool := year % 4 == 0 && (year % 100 != 0 || year % 400 == 0)

def daysInMonth (year month : Nat) : Nat :=
  if month = 2 then (if isLeapYear year then 29 else 28)
  else if month = 4 ∨ month = 6 ∨ month = 9 ∨ month = 11 then 30
  else 31

/-- A date that exists. -/
def date? (s : List Char) : Option (List Char) := do
  let (year, s) ← field? 4 0 9999 s
  let s ← char? '-' s
  let (month, s) ← field? 2 1 12 s
  let s ← char? '-' s
  let (_, s) ← field? 2 1 (daysInMonth year month) s
  return s

/-- A time of day; a minute may have a leap second. -/
def time? (s : List Char) : Option (List Char) := do
  let (_, s) ← field? 2 0 23 s
  let s ← char? ':' s
  let (_, s) ← field? 2 0 59 s
  let s ← char? ':' s
  let (_, s) ← field? 2 0 60 s
  match s with
  | '.' :: rest =>
    match rest.span isDigit with
    | ([], _) => none
    | (_, rest) => return rest
  | rest => return rest

/-- The offset at the end of a date with a time, if there is one. -/
def offset? : List Char → Option (List Char)
  | 'Z' :: rest | 'z' :: rest => some rest
  | '+' :: rest | '-' :: rest => do
    let (_, s) ← field? 2 0 23 rest
    let s ← char? ':' s
    let (_, s) ← field? 2 0 59 s
    return s
  | rest => some rest

/-- A date, a time, or a date with a time and perhaps an offset. -/
def dateTime? (s : List Char) : Option (List Char) :=
  match date? s with
  | some (c :: rest) =>
    if c = 'T' ∨ c = 't' then (time? rest).bind offset?
    else if c = ' ' then
      match rest with
      | d :: _ => if isDigit d then (time? rest).bind offset? else some (c :: rest)
      | [] => some [c]
    else some (c :: rest)
  | some [] => some []
  | none => time? s

/-- An integer in a base, which has no sign. -/
def radix? (base : Nat) (ok : Char → Bool) (s : List Char) : Option (List Char) := do
  let (ds, rest) ← digits? ok s
  if numberOf base ds < 1 <<< 63 then return rest else none

/-- The fraction behind the integer part of a decimal. -/
def fractionPart? : List Char → Option (List Char × List Char)
  | '.' :: rest => (digits? isDigit rest).map fun (ds, rest) => ('.' :: ds, rest)
  | rest => some ([], rest)

/-- The exponent at the end of a decimal. -/
def exponentPart? : List Char → Option (List Char × List Char)
  | c :: rest =>
    if c = 'e' ∨ c = 'E' then
      let (sign, rest) : List Char × List Char := match rest with
        | '+' :: rest => (['+'], rest)
        | '-' :: rest => (['-'], rest)
        | rest => ([], rest)
      (digits? isDigit rest).map fun (ds, rest) => ('e' :: sign ++ ds, rest)
    else some ([], c :: rest)
  | [] => some ([], [])

/-- An integer or a float behind its sign. -/
def decimal? (negative : Bool) (s : List Char) : Option (List Char) := do
  let (whole, rest) ← digits? isDigit s
  if whole.head? = some '0' ∧ whole.length ≠ 1 then none
  let (fraction, rest) ← fractionPart? rest
  let (exponent, rest) ← exponentPart? rest
  if fraction.isEmpty && exponent.isEmpty then
    let bound := if negative then 1 <<< 63 else (1 <<< 63) - 1
    if numberOf 10 whole ≤ bound then return rest else none
  else
    match Binary64.parseUnsigned? negative (whole ++ fraction ++ exponent) with
    | some (.infinite false) => none
    | some _ => return rest
    | none => none

/-- A number behind its sign. -/
def signed? (negative : Bool) : List Char → Option (List Char)
  | 'i' :: 'n' :: 'f' :: rest => some rest
  | 'n' :: 'a' :: 'n' :: rest => some rest
  | rest => decimal? negative rest

/-- A number or a truth value. -/
def scalar? : List Char → Option (List Char)
  | 't' :: 'r' :: 'u' :: 'e' :: rest => some rest
  | 'f' :: 'a' :: 'l' :: 's' :: 'e' :: rest => some rest
  | 'i' :: 'n' :: 'f' :: rest => some rest
  | 'n' :: 'a' :: 'n' :: rest => some rest
  | '+' :: rest => signed? false rest
  | '-' :: rest => signed? true rest
  | '0' :: 'x' :: rest => radix? 16 isHexDigit rest
  | '0' :: 'o' :: rest => radix? 8 (fun c => '0' ≤ c && c ≤ '7') rest
  | '0' :: 'b' :: rest => radix? 2 (fun c => c == '0' || c == '1') rest
  | rest => decimal? false rest

end DBindings.Toml
