import DBindings.TypeText
import Mathlib.Data.List.Basic

/-!
# What a type says in D

D has fewer types than C++: it has one kind of reference and one qualifier, some builtin kinds share
a name, and a function type is a pointer already.

* `DType`             the types that D can write;
* `Ty.essence`        what is left of a type in D;
* `Ty.Built`          types that are made without names, with references on the outside only;
* `Ty.render_eq`   such a type is written as what is left of it.
-/

namespace DBindings

/-- A type that D can write. -/
inductive DType where
  | named (name : String)
  | pointer (inner : DType)
  | constant (inner : DType)
  | sized (element : DType) (size : Nat)
  | slice (element : DType)
  | function (ret : DType) (params : List DType) (variadic : Bool)
  | ref (inner : DType)

namespace DType

mutual

def print : DType → String
  | named name => Text.dotted name
  | pointer inner => print inner ++ "*"
  | constant inner => "const(" ++ print inner ++ ")"
  | sized element size => print element ++ "[" ++ toString size ++ "]"
  | slice element => print element ++ "[]"
  | function ret params variadic =>
    print ret ++ " function(" ++
      commaSeparated (printAll params ++ if variadic then ["..."] else []) ++ ")"
  | ref inner => "ref " ++ print inner

def printAll : List DType → List String
  | [] => []
  | ty :: tys => print ty :: printAll tys

end

theorem printAll_eq_map (tys : List DType) : printAll tys = tys.map print := by
  induction tys with
  | nil => rfl
  | cons ty tys ih => rw [printAll, ih, List.map_cons]

/-- The type without its outer qualifiers. -/
def unqualified : DType → DType
  | constant inner => unqualified inner
  | ty => ty

end DType

namespace Ty

mutual

/-- What is left of a type in D: of the qualifiers `const`, of the builtin kinds their names, and of
a pointer to a function the function, without the qualifiers between the two. -/
def essence : Ty → DType
  | builtin kind => .named kind.dName
  | pointer inner =>
    if inner.isFunction then (essence inner).unqualified else .pointer (essence inner)
  | reference inner _ => .ref (essence inner)
  | constantArray element size => .sized (essence element) size
  | array element => .slice (essence element)
  | function ret params variadic => .function (essence ret) (essenceAll params) variadic
  | qualified isConst inner => if isConst then .constant (essence inner) else essence inner
  | record ref | enum ref => .named ref.name
  | templateSpecialization name _ | typedef name _ | templateParam name | dependent name =>
    .named name

def essenceAll : List Ty → List DType
  | [] => []
  | ty :: tys => essence ty :: essenceAll tys

end

theorem essenceAll_eq_map (tys : List Ty) : essenceAll tys = tys.map essence := by
  induction tys with
  | nil => rfl
  | cons ty tys ih => rw [essenceAll, ih, List.map_cons]

/-- The type is made of builtin kinds, pointers, qualifiers, arrays and functions.  References are
the outermost part of the parameters of functions and, where `outermost` says so, of the type. -/
inductive Built : Bool → Ty → Prop where
  | builtin {outermost : Bool} (kind : Builtin) : Built outermost (.builtin kind)
  | pointer {outermost : Bool} {inner : Ty} : Built false inner → Built outermost (.pointer inner)
  | qualified {outermost : Bool} {inner : Ty} (isConst : Bool) :
    Built false inner → Built outermost (.qualified isConst inner)
  | constantArray {outermost : Bool} {element : Ty} (size : Nat) :
    Built false element → Built outermost (.constantArray element size)
  | array {outermost : Bool} {element : Ty} : Built false element → Built outermost (.array element)
  | function {outermost : Bool} {ret : Ty} {params : List Ty} (variadic : Bool) :
    Built false ret → (∀ p ∈ params, Built true p) → Built outermost (.function ret params variadic)
  | reference {inner : Ty} (rvalue : Bool) :
    Built false inner → Built true (.reference inner rvalue)

variable {names : NameTable}

theorem renderAll_eq_map (tys : List Ty) :
    renderAll names tys = tys.map (renderIn names false) := by
  induction tys with
  | nil => rfl
  | cons ty tys ih => rw [renderAll, ih, List.map_cons]

/-- A type is written as what is left of it; below a pointer a function is written without its
qualifiers. -/
theorem renderIn_eq {outermost : Bool} {ty : Ty} (h : ty.Built outermost) :
    renderIn names false ty = ty.essence.print ∧
    (ty.isFunction = true → renderIn names true ty = ty.essence.unqualified.print) := by
  induction h with
  | builtin kind =>
    refine ⟨?_, fun hfunction => absurd hfunction Bool.false_ne_true⟩
    rw [renderIn, essence, DType.print]
  | @pointer _ inner _ ih =>
    refine ⟨?_, fun hfunction => absurd hfunction Bool.false_ne_true⟩
    rw [renderIn, essence]
    by_cases hfunction : inner.isFunction = true
    · rw [if_pos hfunction, if_pos hfunction]
      exact ih.2 hfunction
    · rw [if_neg hfunction, if_neg hfunction, DType.print, ih.1]
  | @qualified _ inner isConst _ ih =>
    rw [renderIn, renderIn, essence, Bool.not_false, Bool.and_true, Bool.not_true, Bool.and_false,
      if_neg Bool.false_ne_true]
    cases isConst with
    | true =>
      refine ⟨?_, ih.2⟩
      rw [if_pos rfl, if_pos rfl, DType.print, ih.1]
    | false => exact ih
  | @constantArray _ element size _ ih =>
    refine ⟨?_, fun hfunction => absurd hfunction Bool.false_ne_true⟩
    rw [renderIn, essence, DType.print, ih.1]
  | @array _ element _ ih =>
    refine ⟨?_, fun hfunction => absurd hfunction Bool.false_ne_true⟩
    rw [renderIn, essence, DType.print, ih.1]
  | @function _ ret params variadic _ _ ih ihparams =>
    have hparams : renderAll names params = DType.printAll (essenceAll params) := by
      rw [renderAll_eq_map, DType.printAll_eq_map, essenceAll_eq_map, List.map_map]
      exact List.map_congr_left fun p hp => (ihparams p hp).1
    have hself : renderIn names false (.function ret params variadic) =
        (essence (.function ret params variadic)).print := by
      rw [renderIn, essence, DType.print, ih.1, hparams]
    exact ⟨hself, fun _ => hself⟩
  | @reference inner rvalue _ ih =>
    refine ⟨?_, fun hfunction => absurd hfunction Bool.false_ne_true⟩
    rw [renderIn, essence, DType.print, ih.1]

theorem render_eq {ty : Ty} (h : ty.Built true) : ty.render names = ty.essence.print :=
  (renderIn_eq h).1

end Ty

end DBindings
