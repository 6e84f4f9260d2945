/-!
# Runs of bit-fields

Consecutive bit-fields of a record share one `bitfields` group of `std.bitmanip`, which holds 8, 16,
32 or 64 bits.  A run that is closed is padded to the next of these sizes.  The bits of a run are
counted in 32 bits, and so are the widths that are handed over.

* `BitfieldRun.push`    adds a bit-field, or refuses one that does not fit in 64 bits;
* `BitfieldRun.close`   the lines of the group.
-/

namespace DBindings

/-- Why code cannot be written. -/
inductive EmitError where
  /-- a run of bit-fields is wider than the widest group -/
  | bitfieldOverflow (record : String) (accumulated : UInt32)
  deriving Repr, DecidableEq, Inhabited

def EmitError.message : EmitError → String
  | bitfieldOverflow record accumulated =>
    "bit-field run in \x60" ++ record ++ "\x60 accumulates " ++ toString accumulated.toNat ++
      " bits without closing"

structure BitfieldEntry where
  ty : String
  name : String
  width : UInt32
  deriving Repr, DecidableEq, Inhabited

/-- The bit-fields since the last other member of a record, and the sum of their widths. -/
structure BitfieldRun where
  record : String
  entries : List BitfieldEntry := []
  accumulated : UInt32 := 0
  deriving Repr, DecidableEq, Inhabited

namespace BitfieldRun

/-- The bits of the widest group. -/
def maxBits : UInt32 := 64

/-- The largest count of bits that can be reported. -/
def maxReported : UInt32 := 4294967295

/-- The sum of two counts, if it fits in 32 bits. -/
def checkedAdd (a b : UInt32) : Option UInt32 :=
  if a.toNat + b.toNat < UInt32.size then some (a + b) else none

def isOpen (run : BitfieldRun) : Bool := !run.entries.isEmpty

/-- Adds a bit-field at the end of the run.  A bit-field that is refused leaves the run as it is. -/
def push (run : BitfieldRun) (entry : BitfieldEntry) : Except EmitError Unit × BitfieldRun :=
  match checkedAdd run.accumulated entry.width with
  | some bits =>
    if bits ≤ maxBits then
      (.ok (), { run with entries := run.entries ++ [entry], accumulated := bits })
    else (.error (.bitfieldOverflow run.record bits), run)
  | none => (.error (.bitfieldOverflow run.record maxReported), run)

def groupSizes : List UInt32 := [8, 16, 32, 64]

/-- The smallest group that holds so many bits. -/
def groupSize (bits : UInt32) : UInt32 := (groupSizes.find? (bits ≤ ·)).getD maxBits

/-- The bits left in the group. -/
def padding (run : BitfieldRun) : UInt32 := groupSize run.accumulated - run.accumulated

/-- The entries of the group: those of the run and the padding, which stands there even when it has
no bits. -/
def group (run : BitfieldRun) : List BitfieldEntry := run.entries ++ [⟨"uint", "", run.padding⟩]

/-- One entry of a group as D writes it. -/
def entryLine (entry : BitfieldEntry) (separator : String) : String :=
  "    " ++ entry.ty ++ ", \"" ++ entry.name ++ "\", " ++ toString entry.width.toNat ++ separator

/-- The entries of a group, with a comma behind each but the last. -/
def entryLines : List BitfieldEntry → List String
  | [] => []
  | [last] => [entryLine last ""]
  | entry :: rest => entryLine entry "," :: entryLines rest

def groupLines (entries : List BitfieldEntry) : List String :=
  ["mixin(bitfields!("] ++ entryLines entries ++ ["));"]

/-- The lines of the run, if it is open, and the run that follows. -/
def close (run : BitfieldRun) : Option (List String) × BitfieldRun :=
  if run.isOpen then (some (groupLines run.group), { run with entries := [], accumulated := 0 })
  else (none, run)

end BitfieldRun

end DBindings
