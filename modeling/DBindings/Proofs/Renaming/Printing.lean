import DBindings.Emit.Function
import DBindings.Proofs.Renaming.Exprs

/-!
# Renamed code in print

A tree and the renamed one are printed as the same text and raise the same requests, under names
that agree.  Only the operands of rewrites are renamed.

* `Printed.rename`        printed code with renamed operands;
* `Expr.rename_print`     an expression and the renamed one in print;
* `Stmt.rename_print`     a statement and the renamed one in print.
-/

set_option linter.unusedSectionVars false

namespace DBindings

variable {ρ : Renaming}

/-! ## Printed code with renamed operands -/

def Suffix.rename (ρ : Renaming) : Suffix → Suffix
  | .byRef ty => .byRef (ty.map (Ty.rename ρ))
  | .ptr => .ptr
  | .trait kind => .trait kind

def Rewrite.rename (ρ : Renaming) (w : Rewrite) : Rewrite :=
  ⟨w.operand.rename ρ, w.text, w.suffix.rename ρ⟩

def Fragment.rename (ρ : Renaming) : Fragment → Fragment
  | .text s => .text s
  | .suffix w request => .suffix (w.rename ρ) request

namespace Printed

def rename (ρ : Renaming) (p : Printed) : Printed := ⟨p.fragments.map (Fragment.rename ρ)⟩

theorem rename_append (p q : Printed) : (p ++ q).rename ρ = p.rename ρ ++ q.rename ρ :=
  congrArg Printed.mk List.map_append

theorem rename_ofText (s : String) : (ofText s).rename ρ = ofText s := rfl

theorem text_rename (p : Printed) : (p.rename ρ).text = p.text := by
  have hcode : ∀ f : Fragment, (f.rename ρ).code = f.code := by
    intro f
    cases f with
    | text s => rfl
    | suffix w request =>
      obtain ⟨operand, text, suffix⟩ := w
      cases suffix <;> rfl
  unfold text rename
  rw [List.foldr_map]
  simp only [hcode]

theorem requests_rename (p : Printed) : (p.rename ρ).requests = p.requests := by
  have hrequest : ∀ f : Fragment, (f.rename ρ).request? = f.request? := by
    intro f
    cases f <;> rfl
  unfold requests rename
  rw [List.filterMap_map]
  exact List.filterMap_congr fun f _ => hrequest f

theorem rename_suffixed (p : Printed) (e : Expr) (x : Suffix) (r : Option Request) :
    (p.suffixed e x r).rename ρ = (p.rename ρ).suffixed (e.rename ρ) (x.rename ρ) r := by
  unfold suffixed
  rw [text_rename]
  exact congrArg Printed.mk List.map_append

theorem rename_joined (separator : String) (ps : List Printed) :
    (joined separator ps).rename ρ = joined separator (ps.map (rename ρ)) := by
  induction ps with
  | nil => rfl
  | cons p ps ih =>
    cases ps with
    | nil => rfl
    | cons q ps =>
      show (p ++ ofText separator ++ joined separator (q :: ps)).rename ρ = _
      rw [rename_append, rename_append, ih]
      rfl

section
variable {names names' : NameTable} (hn : names.Agree ρ names')
include hn

theorem requestFor_rename (ty : Option Ty) :
    requestFor names' (ty.map (Ty.rename ρ)) = requestFor names ty := by
  cases ty with
  | none => rfl
  | some ty =>
    unfold requestFor
    show (Ty.record? (ty.rename ρ)).map _ = ty.record?.map _
    rw [Ty.record?_rename, Option.map_map]
    refine congrArg (fun f => Option.map f ty.record?) (funext fun ref => ?_)
    show Request.mk ref.id (names'.refName (ref.rename ρ)) = _
    rw [hn ref]

theorem rename_byRef (p : Printed) (e : Expr) (ty : Option Ty) :
    (p.byRef names e ty).rename ρ
      = (p.rename ρ).byRef names' (e.rename ρ) (ty.map (Ty.rename ρ)) := by
  unfold byRef
  rw [rename_suffixed, requestFor_rename hn]
  rfl

end

end Printed

/-! ## Expressions -/

namespace Expr
open Printed

def renamePiece (ρ : Renaming) (p : Piece) : Piece := (p.1.rename ρ, p.2.rename ρ)

theorem rename_written (ps : List Piece) :
    (written ps).map (Printed.rename ρ) = written (ps.map (renamePiece ρ)) := by
  have hdefault : (fun p : Piece => !p.1.isDefaultArg) ∘ renamePiece ρ
      = fun p : Piece => !p.1.isDefaultArg :=
    funext fun p => congrArg (!·) (isDefaultArg_rename p.1)
  unfold written
  rw [List.takeWhile_map, List.map_map, List.map_map, hdefault]
  rfl

theorem rename_arguments (ps : List Piece) :
    (arguments ps).rename ρ = arguments (ps.map (renamePiece ρ)) := by
  unfold arguments
  rw [rename_joined, rename_written]

theorem rename_operatorText (op : OverloadedOp) (ps : List Piece) :
    (operatorText op ps).rename ρ = operatorText op (ps.map (renamePiece ρ)) := by
  match ps with
  | [] => cases op <;> rfl
  | [(e, x)] =>
    cases op <;> simp [operatorText, renamePiece, rename_append, rename_ofText, rename_arguments]
  | [(e, x), (e', y)] =>
    cases op <;> simp [operatorText, renamePiece, rename_append, rename_ofText, rename_arguments]
  | (e, x) :: (e', y) :: (e'', z) :: ps =>
    cases op <;> simp [operatorText, renamePiece, rename_append, rename_ofText, rename_arguments]

theorem rename_unaryText (op : UnaryOp) (operand : Expr) (x : Printed) :
    (unaryText op operand x).rename ρ = unaryText op (operand.rename ρ) (x.rename ρ) := by
  unfold unaryText
  rw [isThis_rename, isUnary_rename]
  split
  · rw [rename_append, rename_ofText]
  · rw [rename_append, rename_append, rename_ofText, rename_ofText]

section
variable {cx : PrintContext} {names' : NameTable} (hn : cx.names.Agree ρ names')
include hn

theorem templateArgs_rename (args : List TemplateArg) :
    PrintContext.templateArgs { cx with names := names' } (TemplateArg.renameAll ρ args)
      = cx.templateArgs args := by
  unfold PrintContext.templateArgs
  cases args with
  | nil => rfl
  | cons arg args =>
    rw [TemplateArg.renderAll_rename hn]
    rfl

theorem qualifier_rename (ty : Option Ty) :
    PrintContext.qualifier { cx with names := names' } (ty.map (Ty.rename ρ))
      = cx.qualifier ty := by
  cases ty with
  | none => rfl
  | some ty => exact congrArg (· ++ ".") (Ty.render_rename hn ty)

theorem memberText_rename (info : MemberInfo) :
    memberText { cx with names := names' } (info.rename ρ) = memberText cx info :=
  congrArg (_ ++ ·) (templateArgs_rename hn info.templateArgs)

theorem rename_argument (p : Piece) (param : Option Ty) :
    (argument cx p param).rename ρ
      = argument { cx with names := names' } (renamePiece ρ p) (param.map (Ty.rename ρ)) := by
  have hreference : (param.map (Ty.rename ρ)).any Ty.isReference = param.any Ty.isReference := by
    cases param with
    | none => rfl
    | some ty => exact Ty.isReference_rename ty
  unfold argument renamePiece
  rw [hreference, isMaterialized_rename, ty?_rename]
  split
  · exact rename_byRef hn p.2 p.1 p.1.ty?
  · rfl

theorem rename_callWritten (params : List Ty) (ps : List Piece) :
    (callWritten cx params ps).map (Printed.rename ρ)
      = callWritten { cx with names := names' } (params.map (Ty.rename ρ))
          (ps.map (renamePiece ρ)) := by
  induction ps generalizing params with
  | nil => cases params <;> rfl
  | cons p ps ih =>
    have hdefault : (renamePiece ρ p).1.isDefaultArg = p.1.isDefaultArg := isDefaultArg_rename p.1
    rw [List.map_cons]
    unfold callWritten
    rw [hdefault]
    split
    · rfl
    · rw [List.map_cons, rename_argument hn, ih, List.head?_map, List.map_tail]

theorem rename_callArguments (params : Option (List Ty)) (ps : List Piece) :
    (callArguments cx params ps).rename ρ
      = callArguments { cx with names := names' } (params.map (Ty.renameAll ρ))
          (ps.map (renamePiece ρ)) := by
  have hparams : (params.map (Ty.renameAll ρ)).getD [] = (params.getD []).map (Ty.rename ρ) := by
    cases params with
    | none => rfl
    | some params => exact Ty.renameAll_eq_map ρ params
  unfold callArguments
  rw [rename_joined, rename_callWritten hn, hparams]

theorem rename_binaryText (op : BinaryOp) (lhs rhs : Expr) (x y : Printed) :
    (binaryText cx op lhs rhs x y).rename ρ
      = binaryText { cx with names := names' } op (lhs.rename ρ) (rhs.rename ρ) (x.rename ρ)
          (y.rename ρ) := by
  unfold binaryText
  rw [pointerOperand?_rename, ignoreImplicit_rename, integerValue?_rename]
  cases lhs.pointerOperand? with
  | none => simp only [Option.map_none, rename_append, rename_ofText]
  | some ty =>
    cases rhs.ignoreImplicit.integerValue? with
    | none => simp only [Option.map_some, rename_append, rename_ofText]
    | some value =>
      simp only [Option.map_some, rename_append, rename_ofText, Ty.render_rename hn]
      split <;> simp only [rename_append, rename_ofText]

theorem rename_constructText (ty : Ty) (ps : List Piece) (listInit stdInitList : Bool) :
    (constructText cx ty ps listInit stdInitList).rename ρ
      = constructText { cx with names := names' } (ty.rename ρ) (ps.map (renamePiece ρ)) listInit
          stdInitList := by
  have htemporary : anyContainsTemporary ((ps.map (renamePiece ρ)).map (·.1))
      = anyContainsTemporary (ps.map (·.1)) := by
    have hmap : (ps.map (renamePiece ρ)).map (·.1) = renameAll ρ (ps.map (·.1)) := by
      rw [renameAll_eq_map, List.map_map, List.map_map]
      rfl
    rw [hmap, anyContainsTemporary_rename]
  unfold constructText
  dsimp only
  rw [htemporary, List.length_map, Ty.render_rename hn, rename_append, rename_ofText]
  refine congrArg (_ ++ ·) ?_
  split <;> simp only [rename_append, rename_ofText, rename_arguments]

theorem rename_memberAccess (base : Expr) (x : Printed) (info : MemberInfo) :
    (memberAccess cx base x info).rename ρ
      = memberAccess { cx with names := names' } (base.rename ρ) (x.rename ρ)
          (info.rename ρ) := by
  unfold memberAccess
  dsimp only
  rw [ignoreImplicit_rename, isImplicitThis_rename, isAnonymousMember_rename,
    memberText_rename hn]
  split
  · rfl
  · rw [rename_append, rename_append, rename_append, rename_ofText, rename_ofText, rename_ofText]
    show _ = _ ++ (_ ++ ofText (PrintContext.qualifier _ (info.qualifier.map (Ty.rename ρ))) ++ _)
    rw [qualifier_rename hn]
    rfl

theorem rename_callText (callee : Expr) (x : Printed) (params : Option (List Ty))
    (ps : List Piece) :
    (callText cx callee x params ps).rename ρ
      = callText { cx with names := names' } (callee.rename ρ) (x.rename ρ)
          (params.map (Ty.renameAll ρ)) (ps.map (renamePiece ρ)) := by
  unfold callText
  rw [ignoreParensImplicit_rename, isPseudoDestructor_rename]
  split
  · rfl
  · rw [rename_append, rename_append, rename_append, rename_ofText, rename_ofText,
      rename_callArguments hn]

theorem rename_newText (ty : Ty) (ps : List Piece) (init : Printed) :
    (newText cx ty ps init).rename ρ
      = newText { cx with names := names' } (ty.rename ρ) (ps.map (renamePiece ρ))
          (init.rename ρ) := by
  unfold newText
  rw [← rename_written, Ty.render_rename hn]
  cases written ps with
  | nil => simp only [rename_append, rename_ofText, List.map_nil]
  | cons x xs => simp only [rename_append, rename_ofText, rename_joined, List.map_cons]

mutual

theorem rename_printView (view : View) : (e : Expr) →
    (printView cx view e).rename ρ = printView { cx with names := names' } view (e.rename ρ)
  | integerLiteral _ _ | floatLiteral _ _ | charLiteral _ _ | stringLiteral _ _ | nullPtr
  | defaultArg | unknown _ => rfl
  | boolLiteral value => by cases value <;> rfl
  | thisPtr implicit => by cases implicit <;> rfl
  | declRef name ty qualifier args => by
    unfold rename printView
    rw [qualifier_rename hn, templateArgs_rename hn]
    rfl
  | member base info => by
    unfold rename printView
    dsimp only
    rw [← rename_printView .whole base]
    split
    · rfl
    · exact rename_memberAccess hn base _ info
  | call callee args params => by
    unfold rename printView
    dsimp only
    rw [← rename_printView .whole callee, ← rename_printAll args]
    split
    · cases printAll cx args <;> rfl
    · exact rename_callText hn callee _ params _
  | memberCall callee args params conversion => by
    unfold rename printView
    rw [← rename_printView .whole callee, ← rename_printView .converted callee,
      ← rename_printAll args]
    split
    · rfl
    · simp only [rename_append, rename_ofText, rename_callArguments hn]
  | operatorCall op args => by
    unfold rename printView
    rw [← rename_printAll args]
    exact rename_operatorText op _
  | unary op operand => by
    unfold rename printView
    rw [← rename_printView .whole operand]
    exact rename_unaryText op operand _
  | binary op lhs rhs => by
    unfold rename printView
    cases view with
    | assertion =>
      dsimp only
      rw [← rename_printView .unparenthesized lhs, ← rename_printView .message rhs, rename_append,
        rename_append, rename_ofText]
    | message => exact rename_printView .message lhs
    | whole | bare | unparenthesized | converted =>
      dsimp only
      rw [← rename_printView .whole lhs, ← rename_printView .whole rhs]
      exact rename_binaryText hn op lhs rhs _ _
  | conditional cond yes no => by
    unfold rename printView
    rw [← rename_printView .whole cond, ← rename_printView .whole yes,
      ← rename_printView .whole no]
    simp only [rename_append, rename_ofText]
  | paren inner => by
    unfold rename printView
    cases view with
    | whole | bare =>
      dsimp only
      rw [← rename_printView .whole inner]
      simp only [rename_append, rename_ofText]
    | unparenthesized => exact rename_printView .whole inner
    | converted | assertion | message => exact rename_printView _ inner
  | implicitCast kind inner ty => by
    unfold rename printView
    cases view with
    | whole | unparenthesized =>
      dsimp only
      rw [← rename_printView .whole inner, isNullPointerConstant_rename, ignoreImplicit_rename,
        isStringLiteral_rename]
      split
      · rfl
      · split
        · rfl
        · split
          · exact rename_suffixed _ _ _ _
          · rfl
    | bare | converted | assertion | message => exact rename_printView _ inner
  | cStyleCast ty inner => by
    unfold rename printView
    rw [← rename_printView .whole inner, ← rename_printView .assertion inner, Ty.isVoid_rename,
      isAssertion_rename, Ty.render_rename hn]
    split <;> simp only [rename_append, rename_ofText]
  | namedCast kind ty inner => by
    unfold rename printView
    rw [← rename_printView .whole inner, castTarget_rename, Ty.render_rename hn]
    simp only [rename_append, rename_ofText]
  | functionalCast ty inner parens => by
    unfold rename printView
    dsimp only
    rw [← rename_printView .whole inner, Ty.render_rename hn]
    cases parens <;> simp [rename_append, rename_ofText]
  | construct ty args listInit stdInitList => by
    unfold rename printView
    rw [← rename_printAll args]
    exact rename_constructText hn ty _ listInit stdInitList
  | temporaryObject ty args | unresolvedConstruct ty args => by
    unfold rename printView
    rw [← rename_printAll args, ← rename_arguments, Ty.render_rename hn]
    simp only [rename_append, rename_ofText]
  | materializeTemporary inner ty => by
    unfold rename printView
    cases view <;> exact rename_printView _ inner
  | newObject ty placement init style => by
    unfold rename printView
    dsimp only
    rw [← rename_printAll placement, rename_newText hn]
    refine congrArg (newText _ _ _) ?_
    cases init with
    | none => rfl
    | some e =>
      unfold renameOption
      dsimp only
      rw [← rename_printView .whole e]
      split <;> simp only [rename_append, rename_ofText]
  | deleteObject inner _ | pseudoDestructor inner => by
    unfold rename printView
    rw [← rename_printView .whole inner]
    simp only [rename_append, rename_ofText]
  | traitOfType kind ty => by
    unfold rename printView
    rw [Ty.render_rename hn]
    rfl
  | traitOfExpr kind inner => by
    unfold rename printView
    rw [← rename_printView .whole inner, mentionsExplicitThis_rename]
    split
    · rfl
    · exact rename_suffixed _ _ _ _
  | arraySubscript base index => by
    unfold rename printView
    rw [isDecayed_rename, ← rename_printView _ base, ← rename_printView .whole index]
    simp only [rename_append, rename_ofText]
  | initList ty exprs => by
    unfold rename printView
    dsimp only
    rw [← rename_printAll exprs, ← rename_arguments, Ty.isArray_rename, Ty.render_rename hn]
    split <;> simp only [rename_append, rename_ofText]
  | dependentMember base name args => by
    unfold rename printView
    rw [templateArgs_rename hn]
    cases base with
    | none => rfl
    | some base =>
      unfold renameOption
      dsimp only
      rw [← rename_printView .whole base]
      simp only [rename_append, rename_ofText]

theorem rename_printAll : (es : List Expr) →
    (printAll cx es).map (renamePiece ρ) = printAll { cx with names := names' } (renameAll ρ es)
  | [] => rfl
  | e :: es => by
    rw [renameAll, printAll, printAll, List.map_cons, rename_printAll es,
      ← rename_printView .whole e]
    rfl

end

theorem rename_print (e : Expr) :
    (e.print cx).rename ρ = (e.rename ρ).print { cx with names := names' } :=
  rename_printView hn .whole e

end

end Expr

/-! ## Statements -/

theorem LocalVar.isDefaultConstructed_rename (v : LocalVar) (init : Expr) :
    (v.rename ρ).isDefaultConstructed (init.rename ρ) = v.isDefaultConstructed init := by
  have hhead : ∀ args : List Expr, ((Expr.renameAll ρ args).head?.map Expr.isDefaultArg).getD true
      = (args.head?.map Expr.isDefaultArg).getD true := by
    intro args
    cases args with
    | nil => rfl
    | cons e es => exact Expr.isDefaultArg_rename e
  unfold isDefaultConstructed
  rw [Expr.ignoreImplicit_rename]
  refine congrArg (v.style == .call && ·) ?_
  cases init.ignoreImplicit with
  | construct ty args listInit stdInitList =>
    cases listInit with
    | false => exact hhead args
    | true => rfl
  | _ => rfl

namespace Stmt

theorem isCompound_rename (s : Stmt) : (s.rename ρ).isCompound = s.isCompound := by
  cases s <;> rfl

theorem isEmptyCompound_rename (s : Stmt) : (s.rename ρ).isEmptyCompound = s.isEmptyCompound := by
  cases s with
  | compound body => cases body <;> rfl
  | _ => rfl

theorem isIf_rename (s : Stmt) : (s.rename ρ).isIf = s.isIf := by cases s <;> rfl

theorem joint_rename (depth : Nat) (body : Stmt) :
    joint depth (body.rename ρ) = joint depth body := by
  unfold joint
  rw [isCompound_rename]

theorem rename_bodyText (depth : Nat) (body : Stmt) (at_ : Nat → Printed) :
    (bodyText depth body at_).rename ρ
      = bodyText depth (body.rename ρ) fun d => (at_ d).rename ρ := by
  unfold bodyText
  rw [isCompound_rename]
  split <;> rw [Printed.rename_append, Printed.rename_ofText]

end Stmt

section
variable {cx : PrintContext} {names' : NameTable} (hn : cx.names.Agree ρ names')
include hn

open Printed

theorem LocalVar.rename_print (v : LocalVar) :
    (v.print cx).rename ρ = (v.rename ρ).print { cx with names := names' } := by
  have hdefault (init : Expr) : (v.rename ρ).isDefaultConstructed (init.rename ρ)
      = v.isDefaultConstructed init := v.isDefaultConstructed_rename init
  obtain ⟨name, ty, isStatic, init, style⟩ := v
  unfold print
  cases init with
  | none =>
    dsimp only [LocalVar.rename, Option.map_none]
    rw [Ty.render_rename hn]
    rfl
  | some init =>
    dsimp only [LocalVar.rename, Option.map_some] at hdefault ⊢
    simp only [Ty.render_rename hn, Ty.isReference_rename, hdefault, ← Expr.rename_print hn]
    split
    · simp only [rename_append, rename_ofText]
      rfl
    · split
      · rfl
      · cases style <;> simp only [rename_append, rename_ofText] <;> rfl

theorem LocalVar.rename_printAll (vars : List LocalVar) :
    (printAll cx vars).rename ρ
      = printAll { cx with names := names' } (vars.map (LocalVar.rename ρ)) := by
  unfold printAll
  rw [rename_joined, List.map_map, List.map_map]
  exact congrArg _ (List.map_congr_left fun v _ => rename_print hn v)

namespace Stmt

mutual

theorem rename_printAt (depth : Nat) : (s : Stmt) →
    (printAt cx depth s).rename ρ = printAt { cx with names := names' } depth (s.rename ρ)
  | compound body => by
    rw [rename, printAt, printAt, rename_append, rename_append, rename_printBlock (depth + 1) body]
    rfl
  | expr e => by
    rw [rename, printAt, printAt, rename_append, Expr.rename_print hn]
    rfl
  | decl vars => by
    rw [rename, printAt, printAt, rename_append, LocalVar.rename_printAll hn]
    rfl
  | ret none => rfl
  | ret (some value) => by
    rw [rename, Option.map_some, printAt, printAt, rename_append, rename_append,
      Expr.rename_print hn]
    rfl
  | ifThen cond yes none => by
    rw [rename, renameOption, printAt, printAt]
    simp only [rename_append, rename_ofText, rename_bodyText, Expr.rename_print hn,
      fun d => rename_printAt d yes]
  | ifThen cond yes (some no) => by
    rw [rename, renameOption, printAt, printAt]
    simp only [rename_append, rename_ofText, rename_bodyText, joint_rename, isIf_rename,
      Expr.rename_print hn, fun d => rename_printAt d yes]
    split <;>
      simp only [rename_append, rename_ofText, rename_bodyText, fun d => rename_printAt d no]
  | whileLoop cond body => by
    rw [rename, printAt, printAt]
    simp only [rename_append, rename_ofText, rename_bodyText, Expr.rename_print hn,
      fun d => rename_printAt d body]
  | doLoop body cond => by
    rw [rename, printAt, printAt]
    simp only [rename_append, rename_ofText, rename_bodyText, joint_rename, Expr.rename_print hn,
      fun d => rename_printAt d body]
  | forLoop none cond inc body => by
    unfold rename renameOption printAt
    cases cond <;> cases inc <;> simp only [Option.map_none, Option.map_some, rename_append,
      rename_ofText, rename_bodyText, Expr.rename_print hn, fun d => rename_printAt d body]
  | forLoop (some init) cond inc body => by
    have hinit := rename_printAt depth init
    unfold rename renameOption printAt
    cases init with
    | decl vars =>
      cases cond <;> cases inc <;> simp only [rename, Option.map_none, Option.map_some,
        rename_append, rename_ofText, rename_bodyText, Expr.rename_print hn,
        LocalVar.rename_printAll hn, fun d => rename_printAt d body]
    | expr e =>
      cases cond <;> cases inc <;> simp only [rename, Option.map_none, Option.map_some,
        rename_append, rename_ofText, rename_bodyText, Expr.rename_print hn,
        fun d => rename_printAt d body]
    | _ =>
      simp only [rename] at hinit
      cases cond <;> cases inc <;> simp only [rename, Option.map_none, Option.map_some,
        rename_append, rename_ofText, rename_bodyText, Expr.rename_print hn, hinit,
        fun d => rename_printAt d body]
  | switch cond body => by
    rw [rename, printAt, printAt]
    simp only [rename_append, rename_ofText, rename_bodyText, Expr.rename_print hn,
      fun d => rename_printAt d body]
  | caseLabel value body => by
    rw [rename, printAt, printAt]
    simp only [rename_append, rename_ofText, rename_bodyText, Expr.rename_print hn,
      fun d => rename_printAt d body]
  | defaultLabel body => by
    rw [rename, printAt, printAt]
    simp only [rename_append, rename_ofText, rename_bodyText, fun d => rename_printAt d body]
  | label name body => by
    rw [rename, printAt, printAt]
    simp only [rename_append, rename_ofText, rename_printAt depth body]
  | goto name | break_ | continue_ | null => rfl

theorem rename_printBlock (depth : Nat) : (ss : List Stmt) →
    (printBlock cx depth ss).rename ρ
      = printBlock { cx with names := names' } depth (renameAll ρ ss)
  | [] => rfl
  | s :: rest => by
    rw [renameAll, printBlock, printBlock, rename_append, rename_append, rename_ofText,
      rename_printAt depth s, rename_printBlock depth rest]

end

theorem rename_print (s : Stmt) :
    (s.print cx).rename ρ = (s.rename ρ).print { cx with names := names' } := rename_printAt hn 0 s

end Stmt

end

end DBindings
