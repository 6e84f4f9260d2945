import DBindings.Feedback
import DBindings.Operator

/-!
# Printed code

What the printer makes of a tree: text, with the places marked where a suffix stands that D needs
and the tree does not have.  Such a suffix may raise a request.

* `Printed.text`       the text;
* `Printed.requests`   the requests that the text depends on, in the order in which they come up;
* `Printed.rewrites`   the operands that got a suffix.
-/

namespace DBindings

def TraitKind.suffix : TraitKind → String
  | .sizeOf => ".sizeof"
  | .alignOf => ".alignof"

/-- What is written behind an operand to rewrite it. -/
inductive Suffix where
  /-- passes a temporary by reference; the type is that of the value, as far as it is known -/
  | byRef (ty : Option Ty)
  /-- the data of an array -/
  | ptr
  | trait (kind : TraitKind)

def Suffix.text : Suffix → String
  | byRef _ => ".byRef"
  | ptr => ".ptr"
  | trait kind => kind.suffix

/-- An operand, its printed text and the suffix behind it. -/
structure Rewrite where
  operand : Expr
  text : String
  suffix : Suffix

/-- A part of printed code. -/
inductive Fragment where
  | text (s : String)
  /-- the suffix of a rewrite and the request that it raises -/
  | suffix (rewrite : Rewrite) (request : Option Request)

namespace Fragment

def code : Fragment → String
  | text s => s
  | suffix w _ => w.suffix.text

def request? : Fragment → Option Request
  | text _ => none
  | suffix _ request => request

def rewrite? : Fragment → Option Rewrite
  | text _ => none
  | suffix w _ => some w

end Fragment

/-- Text with marked places. -/
structure Printed where
  fragments : List Fragment
  deriving Inhabited

namespace Printed

instance : Append Printed := ⟨fun a b => ⟨a.fragments ++ b.fragments⟩⟩

/-- Text that raises nothing. -/
def ofText (s : String) : Printed := ⟨[.text s]⟩

instance : Coe String Printed := ⟨ofText⟩

def empty : Printed := ofText ""

def text (p : Printed) : String := p.fragments.foldr (fun f rest => f.code ++ rest) ""

def requests (p : Printed) : List Request := p.fragments.filterMap Fragment.request?

def rewrites (p : Printed) : List Rewrite := p.fragments.filterMap Fragment.rewrite?

/-- Printed code with a suffix behind it. -/
def suffixed (p : Printed) (operand : Expr) (suffix : Suffix) (request : Option Request := none) :
    Printed :=
  ⟨p.fragments ++ [.suffix ⟨operand, p.text, suffix⟩ request]⟩

/-- The request to the record that a type names. -/
def requestFor (names : NameTable) (ty : Option Ty) : Option Request :=
  (ty.bind Ty.record?).map fun ref => ⟨ref.id, names.refName ref⟩

/-- A value passed by reference, which its record has to be told if the type names one. -/
def byRef (p : Printed) (names : NameTable) (operand : Expr) (ty : Option Ty) : Printed :=
  p.suffixed operand (.byRef ty) (requestFor names ty)

def joined (separator : String) : List Printed → Printed
  | [] => empty
  | [p] => p
  | p :: ps => p ++ separator ++ joined separator ps

/-! ## The parts of composed code -/

private theorem foldr_code (fs : List Fragment) (s : String) :
    fs.foldr (fun f rest => f.code ++ rest) s
      = fs.foldr (fun f rest => f.code ++ rest) "" ++ s := by
  induction fs with
  | nil => simp
  | cons f fs ih => rw [List.foldr_cons, List.foldr_cons, ih, String.append_assoc]

@[simp] theorem text_append (a b : Printed) : (a ++ b).text = a.text ++ b.text := by
  show (a.fragments ++ b.fragments).foldr _ "" = _
  rw [List.foldr_append, foldr_code]
  rfl

@[simp] theorem requests_append (a b : Printed) :
    (a ++ b).requests = a.requests ++ b.requests := List.filterMap_append

@[simp] theorem rewrites_append (a b : Printed) :
    (a ++ b).rewrites = a.rewrites ++ b.rewrites := List.filterMap_append

@[simp] theorem text_ofText (s : String) : (ofText s).text = s := String.append_empty

@[simp] theorem requests_ofText (s : String) : (ofText s).requests = [] := rfl

@[simp] theorem rewrites_ofText (s : String) : (ofText s).rewrites = [] := rfl

@[simp] theorem text_suffixed (p : Printed) (e : Expr) (x : Suffix) (r : Option Request) :
    (p.suffixed e x r).text = p.text ++ x.text := by
  show (p.fragments ++ _).foldr _ "" = _
  rw [List.foldr_append, foldr_code]
  simp [text, Fragment.code]

@[simp] theorem requests_suffixed (p : Printed) (e : Expr) (x : Suffix) (r : Option Request) :
    (p.suffixed e x r).requests = p.requests ++ r.toList := by
  cases r <;> simp [suffixed, requests, Fragment.request?]

@[simp] theorem rewrites_suffixed (p : Printed) (e : Expr) (x : Suffix) (r : Option Request) :
    (p.suffixed e x r).rewrites = p.rewrites ++ [⟨e, p.text, x⟩] := by
  simp [suffixed, rewrites, Fragment.rewrite?]

end Printed

end DBindings
