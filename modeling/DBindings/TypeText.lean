import DBindings.Naming.Table
import DBindings.Text.Dotted

/-!
# Types in D

* `Ty.render`   the D spelling of a type.  Pointers, references and qualifiers nest around what they
  apply to, as in `const(T*)*`; records and enums appear under the names of the name table.
-/

namespace DBindings

/-- The D integer type with so many bits. -/
def integerTypeName (bits : Nat) (signed : Bool) : String :=
  match bits, signed with
  | 8, true => "byte"
  | 8, false => "ubyte"
  | 16, true => "short"
  | 16, false => "ushort"
  | 64, true => "long"
  | 64, false => "ulong"
  | _, true => "int"
  | _, false => "uint"

/-- The D name of a builtin type; kinds that D does not have keep their spelling. -/
def Builtin.dName : Builtin → String
  | bool => "bool"
  | charS | sChar => "char"
  | charU | uChar => "ubyte"
  | uShort => "ushort"
  | uInt => "uint"
  | uLong => "cpp_ulong"
  | long => "cpp_long"
  | uLongLong => "ulong"
  | longLong => "long"
  | kind => kind.spelling

def commaSeparated (texts : List String) : String := String.intercalate ", " texts

mutual

/-- The D spelling of a type.  A function type of D is a pointer already, so a pointer to a
function is spelled as the function type; `bare` says that the sugar between the two is still to
be dropped. -/
def Ty.renderIn (names : NameTable) (bare : Bool) : Ty → String
  | .builtin kind => Text.dotted kind.dName
  | .pointer inner =>
    if inner.isFunction then Ty.renderIn names true inner else Ty.renderIn names false inner ++ "*"
  | .reference inner _ => "ref " ++ Ty.renderIn names false inner
  | .qualified isConst inner =>
    if isConst && !bare then "const(" ++ Ty.renderIn names false inner ++ ")"
    else Ty.renderIn names bare inner
  | .constantArray element size => Ty.renderIn names false element ++ "[" ++ toString size ++ "]"
  | .array element => Ty.renderIn names false element ++ "[]"
  | .function ret params variadic =>
    let params := Ty.renderAll names params ++ if variadic then ["..."] else []
    Ty.renderIn names false ret ++ " function(" ++ commaSeparated params ++ ")"
  | .record ref => Text.dotted (names.refName ref)
  | .enum ref => Text.dotted (names.refName ref)
  | .templateSpecialization template args =>
    Text.dotted template ++ "!(" ++ commaSeparated (TemplateArg.renderAll names args) ++ ")"
  | .typedef name underlying =>
    if bare then Ty.renderIn names true underlying else Text.dotted name
  | .templateParam name => Text.dotted name
  | .dependent spelling => Text.dotted spelling

def Ty.renderAll (names : NameTable) : List Ty → List String
  | [] => []
  | ty :: tys => Ty.renderIn names false ty :: Ty.renderAll names tys

def TemplateArg.render (names : NameTable) : TemplateArg → String
  | .type ty => Ty.renderIn names false ty
  | .integral value _ _ => toString value
  | .expression spelling => Text.dotted spelling

def TemplateArg.renderAll (names : NameTable) : List TemplateArg → List String
  | [] => []
  | arg :: args => TemplateArg.render names arg :: TemplateArg.renderAll names args

end

/-- The D spelling of a type. -/
def Ty.render (names : NameTable) (ty : Ty) : String := ty.renderIn names false

end DBindings
