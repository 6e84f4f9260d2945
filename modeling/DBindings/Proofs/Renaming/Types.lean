import DBindings.Operator
import DBindings.Proofs.Renaming.Rename

/-!
# Renamed types and operands

What the printer asks about a type or an expression does not depend on names.

* `Ty.render_rename`   a renamed type is spelled as the type is under names that agree.
-/

set_option linter.unusedSectionVars false

namespace DBindings

variable {ρ : Renaming}

/-- Names for a renamed tree that refer to declarations as other names do for the tree. -/
def NameTable.Agree (ρ : Renaming) (names names' : NameTable) : Prop :=
  ∀ ref : DeclRef, names'.refName (ref.rename ρ) = names.refName ref

namespace Ty

@[simp] theorem desugar_rename : (ty : Ty) → (ty.rename ρ).desugar = ty.desugar.rename ρ
  | qualified _ inner => desugar_rename inner
  | typedef _ underlying => desugar_rename underlying
  | builtin _ | pointer _ | reference _ _ | constantArray _ _ | array _ | function _ _ _ | record _
  | enum _ | templateSpecialization _ _ | templateParam _ | dependent _ => rfl

@[simp] theorem isVoid_rename (ty : Ty) : (ty.rename ρ).isVoid = ty.isVoid := by
  unfold isVoid
  rw [desugar_rename]
  cases ty.desugar <;> rfl

@[simp] theorem isPointer_rename (ty : Ty) : (ty.rename ρ).isPointer = ty.isPointer := by
  unfold isPointer
  rw [desugar_rename]
  cases ty.desugar <;> rfl

@[simp] theorem isReference_rename (ty : Ty) : (ty.rename ρ).isReference = ty.isReference := by
  unfold isReference
  rw [desugar_rename]
  cases ty.desugar <;> rfl

@[simp] theorem isFunction_rename (ty : Ty) : (ty.rename ρ).isFunction = ty.isFunction := by
  unfold isFunction
  rw [desugar_rename]
  cases ty.desugar <;> rfl

@[simp] theorem isArray_rename (ty : Ty) : (ty.rename ρ).isArray = ty.isArray := by
  unfold isArray
  rw [desugar_rename]
  cases ty.desugar <;> rfl

@[simp] theorem pointee?_rename (ty : Ty) :
    (ty.rename ρ).pointee? = ty.pointee?.map (rename ρ) := by
  unfold pointee?
  rw [desugar_rename]
  cases ty.desugar <;> rfl

@[simp] theorem record?_rename :
    (ty : Ty) → (ty.rename ρ).record? = ty.record?.map (DeclRef.rename ρ)
  | qualified _ inner | reference inner _ => record?_rename inner
  | typedef _ underlying => record?_rename underlying
  | builtin _ | pointer _ | constantArray _ _ | array _ | function _ _ _ | record _ | enum _
  | templateSpecialization _ _ | templateParam _ | dependent _ => rfl

theorem refersTo_rename (ty : Ty) (record : DeclId) :
    (ty.rename ρ).refersTo record = ty.refersTo record := by
  unfold refersTo
  rw [isReference_rename, record?_rename]
  cases ty.record? <;> rfl

theorem conversionTarget_rename (ty : Ty) :
    Function.conversionTarget (ty.rename ρ) = (Function.conversionTarget ty).rename ρ := by
  unfold Function.conversionTarget
  rw [desugar_rename]
  cases ty.desugar <;> rfl

end Ty

section
variable {names names' : NameTable} (hn : names.Agree ρ names')
include hn

mutual

theorem Ty.renderIn_rename (bare : Bool) :
    (ty : Ty) → (ty.rename ρ).renderIn names' bare = ty.renderIn names bare
  | .builtin kind | .templateParam name | .dependent spelling => rfl
  | .pointer inner => by
    rw [Ty.rename, Ty.renderIn, Ty.renderIn, Ty.isFunction_rename, Ty.renderIn_rename true inner,
      Ty.renderIn_rename false inner]
  | .reference inner _ => by
    rw [Ty.rename, Ty.renderIn, Ty.renderIn, Ty.renderIn_rename false inner]
  | .qualified isConst inner => by
    rw [Ty.rename, Ty.renderIn, Ty.renderIn, Ty.renderIn_rename false inner,
      Ty.renderIn_rename bare inner]
  | .constantArray element size => by
    rw [Ty.rename, Ty.renderIn, Ty.renderIn, Ty.renderIn_rename false element]
  | .array element => by
    rw [Ty.rename, Ty.renderIn, Ty.renderIn, Ty.renderIn_rename false element]
  | .function ret params variadic => by
    rw [Ty.rename, Ty.renderIn, Ty.renderIn, Ty.renderIn_rename false ret,
      Ty.renderAll_rename params]
  | .record ref => by rw [Ty.rename, Ty.renderIn, Ty.renderIn, hn ref]
  | .enum ref => by rw [Ty.rename, Ty.renderIn, Ty.renderIn, hn ref]
  | .templateSpecialization template args => by
    rw [Ty.rename, Ty.renderIn, Ty.renderIn, TemplateArg.renderAll_rename args]
  | .typedef name underlying => by
    rw [Ty.rename, Ty.renderIn, Ty.renderIn, Ty.renderIn_rename true underlying]

theorem Ty.renderAll_rename :
    (tys : List Ty) → Ty.renderAll names' (Ty.renameAll ρ tys) = Ty.renderAll names tys
  | [] => rfl
  | ty :: tys => by
    rw [Ty.renameAll, Ty.renderAll, Ty.renderAll, Ty.renderIn_rename false ty,
      Ty.renderAll_rename tys]

theorem TemplateArg.render_rename :
    (arg : TemplateArg) → (arg.rename ρ).render names' = arg.render names
  | .type ty => by
    rw [TemplateArg.rename, TemplateArg.render, TemplateArg.render, Ty.renderIn_rename false ty]
  | .integral _ _ _ | .expression _ => rfl

theorem TemplateArg.renderAll_rename : (args : List TemplateArg) →
    TemplateArg.renderAll names' (TemplateArg.renameAll ρ args) = TemplateArg.renderAll names args
  | [] => rfl
  | arg :: args => by
    rw [TemplateArg.renameAll, TemplateArg.renderAll, TemplateArg.renderAll,
      TemplateArg.render_rename arg, TemplateArg.renderAll_rename args]

end

theorem Ty.render_rename (ty : Ty) : (ty.rename ρ).render names' = ty.render names :=
  Ty.renderIn_rename hn false ty

end

end DBindings
