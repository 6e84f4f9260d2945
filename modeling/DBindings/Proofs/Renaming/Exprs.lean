import DBindings.Print.Expr
import DBindings.Proofs.Renaming.Types

/-!
# The form of renamed expressions

What the printer asks of the form of an expression has the same answer for the renamed one.

* `Expr.ignoreImplicit_rename`          the operand below implicit nodes is renamed;
* `Expr.isNullPointerConstant_rename`   a null pointer constant stays one;
* `Expr.ty?_rename`                     the type of an expression is renamed.
-/

set_option linter.unusedSectionVars false

namespace DBindings

variable {ρ : Renaming}

/-! ## Questions about an expression -/

namespace Expr

@[simp] theorem ignoreImplicit_rename :
    (e : Expr) → (e.rename ρ).ignoreImplicit = e.ignoreImplicit.rename ρ
  | implicitCast _ inner _ | materializeTemporary inner _ => ignoreImplicit_rename inner
  | integerLiteral _ _ | floatLiteral _ _ | charLiteral _ _ | stringLiteral _ _ | boolLiteral _
  | nullPtr | thisPtr _ | declRef _ _ _ _ | member _ _ | call _ _ _ | memberCall _ _ _ _
  | operatorCall _ _ | unary _ _ | binary _ _ _ | conditional _ _ _ | paren _ | cStyleCast _ _
  | namedCast _ _ _ | functionalCast _ _ _ | construct _ _ _ _ | temporaryObject _ _
  | unresolvedConstruct _ _ | defaultArg | newObject _ _ _ _ | deleteObject _ _
  | pseudoDestructor _ | traitOfType _ _ | traitOfExpr _ _ | arraySubscript _ _ | initList _ _
  | dependentMember _ _ _ | unknown _ => rfl

@[simp] theorem ignoreParensImplicit_rename :
    (e : Expr) → (e.rename ρ).ignoreParensImplicit = e.ignoreParensImplicit.rename ρ
  | paren inner | implicitCast _ inner _ | materializeTemporary inner _ =>
    ignoreParensImplicit_rename inner
  | integerLiteral _ _ | floatLiteral _ _ | charLiteral _ _ | stringLiteral _ _ | boolLiteral _
  | nullPtr | thisPtr _ | declRef _ _ _ _ | member _ _ | call _ _ _ | memberCall _ _ _ _
  | operatorCall _ _ | unary _ _ | binary _ _ _ | conditional _ _ _ | cStyleCast _ _
  | namedCast _ _ _ | functionalCast _ _ _ | construct _ _ _ _ | temporaryObject _ _
  | unresolvedConstruct _ _ | defaultArg | newObject _ _ _ _ | deleteObject _ _
  | pseudoDestructor _ | traitOfType _ _ | traitOfExpr _ _ | arraySubscript _ _ | initList _ _
  | dependentMember _ _ _ | unknown _ => rfl

@[simp] theorem isNullPointerConstant_rename :
    (e : Expr) → (e.rename ρ).isNullPointerConstant = e.isNullPointerConstant
  | paren inner => isNullPointerConstant_rename inner
  | implicitCast kind inner _ => congrArg (kind == .nullToPointer || ·)
      (isNullPointerConstant_rename inner)
  | cStyleCast ty inner | namedCast _ ty inner => by
    simp only [rename, isNullPointerConstant, Ty.isPointer_rename, Ty.isVoid_rename,
      isNullPointerConstant_rename inner]
  | integerLiteral _ _ | floatLiteral _ _ | charLiteral _ _ | stringLiteral _ _ | boolLiteral _
  | nullPtr | thisPtr _ | declRef _ _ _ _ | member _ _ | call _ _ _ | memberCall _ _ _ _
  | operatorCall _ _ | unary _ _ | binary _ _ _ | conditional _ _ _ | functionalCast _ _ _
  | construct _ _ _ _ | temporaryObject _ _ | unresolvedConstruct _ _ | materializeTemporary _ _
  | defaultArg | newObject _ _ _ _ | deleteObject _ _ | pseudoDestructor _ | traitOfType _ _
  | traitOfExpr _ _ | arraySubscript _ _ | initList _ _ | dependentMember _ _ _ | unknown _ => rfl

@[simp] theorem mentionsExplicitThis_rename :
    (e : Expr) → (e.rename ρ).mentionsExplicitThis = e.mentionsExplicitThis
  | member inner _ | unary _ inner | paren inner | implicitCast _ inner _ | cStyleCast _ inner
  | namedCast _ _ inner | materializeTemporary inner _ => mentionsExplicitThis_rename inner
  | arraySubscript x y | binary _ x y => by
    simp only [rename, mentionsExplicitThis, mentionsExplicitThis_rename x,
      mentionsExplicitThis_rename y]
  | integerLiteral _ _ | floatLiteral _ _ | charLiteral _ _ | stringLiteral _ _ | boolLiteral _
  | nullPtr | thisPtr _ | declRef _ _ _ _ | call _ _ _ | memberCall _ _ _ _ | operatorCall _ _
  | conditional _ _ _ | functionalCast _ _ _ | construct _ _ _ _ | temporaryObject _ _
  | unresolvedConstruct _ _ | defaultArg | newObject _ _ _ _ | deleteObject _ _
  | pseudoDestructor _ | traitOfType _ _ | traitOfExpr _ _ | initList _ _ | dependentMember _ _ _
  | unknown _ => rfl

mutual

theorem containsTemporary_rename :
    (e : Expr) → (e.rename ρ).containsTemporary = e.containsTemporary
  | construct _ args _ _ => anyContainsTemporary_rename args
  | implicitCast _ inner _ | materializeTemporary inner _ | paren inner =>
    containsTemporary_rename inner
  | integerLiteral _ _ | floatLiteral _ _ | charLiteral _ _ | stringLiteral _ _ | boolLiteral _
  | nullPtr | thisPtr _ | declRef _ _ _ _ | member _ _ | call _ _ _ | memberCall _ _ _ _
  | operatorCall _ _ | unary _ _ | binary _ _ _ | conditional _ _ _ | cStyleCast _ _
  | namedCast _ _ _ | functionalCast _ _ _ | temporaryObject _ _ | unresolvedConstruct _ _
  | defaultArg | newObject _ _ _ _ | deleteObject _ _ | pseudoDestructor _ | traitOfType _ _
  | traitOfExpr _ _ | arraySubscript _ _ | initList _ _ | dependentMember _ _ _ | unknown _ => rfl

theorem anyContainsTemporary_rename :
    (es : List Expr) → anyContainsTemporary (renameAll ρ es) = anyContainsTemporary es
  | [] => rfl
  | e :: es => by
    rw [renameAll, anyContainsTemporary, anyContainsTemporary, containsTemporary_rename e,
      anyContainsTemporary_rename es]

end

@[simp] theorem ty?_rename : (e : Expr) → (e.rename ρ).ty? = e.ty?.map (Ty.rename ρ)
  | paren inner => ty?_rename inner
  | integerLiteral _ _ | floatLiteral _ _ | charLiteral _ _ | stringLiteral _ _ | boolLiteral _
  | nullPtr | thisPtr _ | declRef _ _ _ _ | member _ _ | call _ _ _ | memberCall _ _ _ _
  | operatorCall _ _ | unary _ _ | binary _ _ _ | conditional _ _ _ | implicitCast _ _ _
  | cStyleCast _ _ | namedCast _ _ _ | functionalCast _ _ _ | construct _ _ _ _
  | temporaryObject _ _ | unresolvedConstruct _ _ | materializeTemporary _ _ | defaultArg
  | newObject _ _ _ _ | deleteObject _ _ | pseudoDestructor _ | traitOfType _ _ | traitOfExpr _ _
  | arraySubscript _ _ | initList _ _ | dependentMember _ _ _ | unknown _ => rfl

section
variable (e : Expr)

@[simp] theorem isImplicitThis_rename : (e.rename ρ).isImplicitThis = e.isImplicitThis := by
  cases e <;> rfl

@[simp] theorem isThis_rename : (e.rename ρ).isThis = e.isThis := by cases e <;> rfl

@[simp] theorem isUnary_rename : (e.rename ρ).isUnary = e.isUnary := by cases e <;> rfl

@[simp] theorem isAnonymousMember_rename :
    (e.rename ρ).isAnonymousMember = e.isAnonymousMember := by cases e <;> rfl

@[simp] theorem isMaterialized_rename : (e.rename ρ).isMaterialized = e.isMaterialized := by
  cases e <;> rfl

@[simp] theorem isStringLiteral_rename : (e.rename ρ).isStringLiteral = e.isStringLiteral := by
  cases e <;> rfl

@[simp] theorem isPseudoDestructor_rename :
    (e.rename ρ).isPseudoDestructor = e.isPseudoDestructor := by cases e <;> rfl

@[simp] theorem isDefaultArg_rename : (e.rename ρ).isDefaultArg = e.isDefaultArg := by
  cases e <;> rfl

@[simp] theorem isAssertFunction_rename :
    (e.rename ρ).isAssertFunction = e.isAssertFunction := by cases e <;> rfl

@[simp] theorem integerValue?_rename : (e.rename ρ).integerValue? = e.integerValue? := by
  cases e <;> rfl

@[simp] theorem isDecayed_rename : (e.rename ρ).isDecayed = e.isDecayed := by
  cases e with
  | implicitCast kind inner ty => cases kind <;> rfl
  | _ => rfl

@[simp] theorem pointerOperand?_rename :
    (e.rename ρ).pointerOperand? = e.pointerOperand?.map (Ty.rename ρ) := by
  cases e with
  | declRef name ty qualifier args =>
    simp only [rename, pointerOperand?, Ty.isPointer_rename]
    split <;> rfl
  | member base info =>
    simp only [rename, pointerOperand?, MemberInfo.rename, Ty.isPointer_rename]
    split <;> rfl
  | _ => rfl

@[simp] theorem isAssertReport_rename : (e.rename ρ).isAssertReport = e.isAssertReport := by
  cases e with
  | binary op lhs rhs =>
    cases op with
    | comma =>
      cases lhs with
      | call callee args params =>
        simp only [rename, isAssertReport, ignoreImplicit_rename, isAssertFunction_rename,
          renameAll_eq_map, List.length_map]
      | _ => rfl
    | _ => rfl
  | _ => rfl

@[simp] theorem isAssertion_rename : (e.rename ρ).isAssertion = e.isAssertion := by
  cases e with
  | paren inner =>
    cases inner with
    | binary op lhs rhs =>
      simp only [rename, isAssertion, ignoreParensImplicit_rename, isAssertReport_rename]
    | _ => rfl
  | _ => rfl

end

theorem castTarget_rename (ty : Ty) : castTarget (ty.rename ρ) = (castTarget ty).rename ρ := by
  unfold castTarget
  rw [Ty.desugar_rename]
  cases ty.desugar <;> rfl

end Expr

end DBindings
