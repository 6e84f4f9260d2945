/-!
# Resolved C and C++ types

The types of the declaration tree, as a front end hands them over: every name is resolved and
sugar (typedefs and qualifiers) is kept as nodes of its own.

* `Ty.desugar`   strips the sugar around a type and leaves the node that decides its shape;
* `Ty.record?`   the record that a type names through sugar and references.
-/

namespace DBindings

/-- Number that identifies a declaration within a unit. -/
abbrev DeclId := Nat

inductive Builtin where
  | void | bool | charS | charU | sChar | uChar | wChar | char8 | char16 | char32
  | short | uShort | int | uInt | long | uLong | longLong | uLongLong | int128 | uInt128
  | half | float | double | longDouble | float128 | nullPtr
  deriving Repr, DecidableEq, Inhabited

namespace Builtin

def spelling : Builtin → String
  | void => "void"
  | bool => "bool"
  | charS | charU => "char"
  | sChar => "signed char"
  | uChar => "unsigned char"
  | wChar => "wchar_t"
  | char8 => "char8_t"
  | char16 => "char16_t"
  | char32 => "char32_t"
  | short => "short"
  | uShort => "unsigned short"
  | int => "int"
  | uInt => "unsigned int"
  | long => "long"
  | uLong => "unsigned long"
  | longLong => "long long"
  | uLongLong => "unsigned long long"
  | int128 => "__int128"
  | uInt128 => "unsigned __int128"
  | half => "__fp16"
  | float => "float"
  | double => "double"
  | longDouble => "long double"
  | float128 => "__float128"
  | nullPtr => "std::nullptr_t"

/-- Integer kinds whose values may be negative. -/
def isSignedInteger : Builtin → Bool
  | charS | sChar | wChar | short | int | long | longLong | int128 => true
  | _ => false

end Builtin

/-- A reference to a record or enum declaration; the name is empty for anonymous ones. -/
structure DeclRef where
  id : DeclId
  name : String
  deriving Repr, DecidableEq, Inhabited

mutual

/-- A fully resolved type. -/
inductive Ty where
  | builtin (kind : Builtin)
  | pointer (inner : Ty)
  | reference (inner : Ty) (rvalue : Bool)
  | constantArray (element : Ty) (size : Nat)
  | array (element : Ty)
  | function (ret : Ty) (params : List Ty) (variadic : Bool)
  | record (ref : DeclRef)
  | enum (ref : DeclRef)
  | templateSpecialization (template : String) (args : List TemplateArg)
  | qualified (isConst : Bool) (inner : Ty)
  /-- a named typedef, kept as written -/
  | typedef (name : String) (underlying : Ty)
  | templateParam (name : String)
  /-- a type that could not be resolved, with its own spelling -/
  | dependent (spelling : String)

inductive TemplateArg where
  | type (ty : Ty)
  | integral (value : Int) (bits : Nat) (signed : Bool)
  /-- an unevaluated argument, already spelled -/
  | expression (spelling : String)

end

instance : Inhabited Ty := ⟨.builtin .void⟩

instance : Inhabited TemplateArg := ⟨.expression ""⟩

namespace Ty

/-- The type below all outer qualifiers and typedefs. -/
def desugar : Ty → Ty
  | qualified _ inner => desugar inner
  | typedef _ underlying => desugar underlying
  | ty => ty

def isVoid (ty : Ty) : Bool :=
  match ty.desugar with
  | builtin .void => true
  | _ => false

def isPointer (ty : Ty) : Bool :=
  match ty.desugar with
  | pointer _ => true
  | _ => false

def isReference (ty : Ty) : Bool :=
  match ty.desugar with
  | reference .. => true
  | _ => false

def isFunction (ty : Ty) : Bool :=
  match ty.desugar with
  | function .. => true
  | _ => false

def isArray (ty : Ty) : Bool :=
  match ty.desugar with
  | constantArray .. | array _ => true
  | _ => false

/-- Some of the outer qualifiers is `const`; typedefs are not looked through. -/
def isConst : Ty → Bool
  | qualified isConst' inner => isConst' || isConst inner
  | _ => false

/-- The pointee of a pointer or the referent of a reference. -/
def pointee? (ty : Ty) : Option Ty :=
  match ty.desugar with
  | pointer inner | reference inner _ => some inner
  | _ => none

/-- The record that a type names, through qualifiers, typedefs and references but not through
pointers. -/
def record? : Ty → Option DeclRef
  | record ref => some ref
  | reference inner _ => record? inner
  | qualified _ inner => record? inner
  | typedef _ underlying => record? underlying
  | _ => none

/-! ## Constructors for common types -/

def void : Ty := builtin .void

def bool : Ty := builtin .bool

def int : Ty := builtin .int

def uint : Ty := builtin .uInt

def float : Ty := builtin .float

def double : Ty := builtin .double

def char : Ty := builtin .charS

def constant (ty : Ty) : Ty := qualified true ty

def lref (ty : Ty) : Ty := reference ty false

def rref (ty : Ty) : Ty := reference ty true

def constRef (ty : Ty) : Ty := ty.constant.lref

end Ty

end DBindings
