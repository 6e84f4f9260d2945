import DBindings.Emit.Method
import DBindings.Proofs.Renaming.Printing

/-!
# Renamed functions

The lines of a function and the requests that it raises are those of the renamed function.

* `Function.rename_printParams`        parameter lists;
* `definition_rename`                  signatures with their bodies;
* `Function.freeBlock_rename`          functions that are no members;
* `RecordDecl.methodBlock_rename`      member functions.
-/

set_option linter.unusedSectionVars false

namespace DBindings

variable {ρ : Renaming}

/-! ## Parameters -/

section
variable {names names' : NameTable} (hn : names.Agree ρ names')
include hn

theorem Param.rename_print (p : Param) : (p.print names).rename ρ = (p.rename ρ).print names' := by
  unfold Param.print
  rw [Param.rename]
  dsimp only
  rw [Ty.render_rename hn, Ty.isPointer_rename, Ty.isReference_rename]
  cases p.default with
  | none => rfl
  | some value =>
    have hprint : (value.print { names }).rename ρ = (value.rename ρ).print { names := names' } :=
      Expr.rename_print hn value
    rw [Option.map_some]
    dsimp only
    rw [Expr.isNullPointerConstant_rename]
    split
    · rfl
    · split
      · rw [Printed.rename_append, Printed.rename_byRef hn, hprint]
        rfl
      · rw [Printed.rename_append, hprint]
        rfl

theorem TemplateParam.rename_print (p : TemplateParam) :
    (p.print names).rename ρ = (p.rename ρ).print names' := by
  unfold TemplateParam.print
  rw [TemplateParam.rename]
  dsimp only
  cases p.nonType with
  | none => rfl
  | some ty =>
    rw [Option.map_some]
    dsimp only
    rw [Ty.render_rename hn]
    cases p.default with
    | none => rfl
    | some value =>
      have hprint : (value.print { names }).rename ρ = (value.rename ρ).print { names := names' } :=
        Expr.rename_print hn value
      rw [Option.map_some]
      dsimp only
      rw [Printed.rename_append, hprint]
      rfl

theorem TemplateParam.rename_printAll (ps : List TemplateParam) :
    (TemplateParam.printAll names ps).rename ρ
      = TemplateParam.printAll names' (ps.map (TemplateParam.rename ρ)) := by
  unfold TemplateParam.printAll
  rw [Printed.rename_joined, List.map_map, List.map_map]
  exact congrArg _ (List.map_congr_left fun p _ => TemplateParam.rename_print hn p)

theorem Function.rename_printParams (f : Function) :
    (f.printParams names).rename ρ = (f.rename ρ).printParams names' := by
  unfold Function.printParams
  rw [Printed.rename_joined, List.map_append, Function.rename]
  dsimp only
  have hparams : (f.params.map (Param.print names)).map (Printed.rename ρ)
      = (f.params.map (Param.rename ρ)).map (Param.print names') := by
    rw [List.map_map, List.map_map]
    exact List.map_congr_left fun p _ => Param.rename_print hn p
  rw [hparams]
  cases f.variadic <;> rfl

end

section
variable {cx : PrintContext} {names' : NameTable} (hn : cx.names.Agree ρ names')
include hn

theorem CtorInitializer.rename_print? (init : CtorInitializer) :
    (init.print? cx).map (Printed.rename ρ)
      = (init.rename ρ).print? { cx with names := names' } := by
  unfold CtorInitializer.print?
  rw [CtorInitializer.rename]
  dsimp only
  cases init.member with
  | none => rfl
  | some member =>
    have hprint : (init.init.print { cx with inInitializer := true }).rename ρ
        = (init.init.rename ρ).print { cx with names := names', inInitializer := true } :=
      @Expr.rename_print ρ { cx with inInitializer := true } names' hn init.init
    dsimp only
    split
    · rw [Option.map_some, Printed.rename_append, Printed.rename_append, hprint]
      rfl
    · rfl

/-! ## Definitions -/

theorem definition_rename (signature : String) (body : Option Stmt) (initializers : List String)
    (commentOut : Bool) :
    definition { cx with names := names' } signature (body.map (Stmt.rename ρ)) initializers
        commentOut
      = definition cx signature body initializers commentOut := by
  unfold definition
  cases body with
  | none => rfl
  | some body =>
    rw [Option.map_some]
    dsimp only
    rw [Stmt.isEmptyCompound_rename, ← Stmt.rename_print hn, Printed.text_rename,
      Printed.requests_rename]

end

theorem Function.inlineBody?_rename (f : Function) :
    (f.rename ρ).inlineBody? = f.inlineBody?.map (Stmt.rename ρ) := by
  unfold Function.inlineBody?
  rw [Function.rename]
  dsimp only
  split <;> rfl

theorem Function.isTemplated_rename (f : Function) : (f.rename ρ).isTemplated = f.isTemplated := by
  unfold Function.isTemplated
  rw [Function.rename]
  cases f.templateParams <;> rfl

/-- Settings are the same and types are spelled alike. -/
structure EmitEnv.Alike (ρ : Renaming) (env env' : EmitEnv) : Prop where
  options : env'.options = env.options
  agree : env.names.Agree ρ env'.names

section
variable {env env' : EmitEnv} (henv : env.Alike ρ env')
include henv

theorem EmitEnv.Alike.render (ty : Ty) : env'.render (ty.rename ρ) = env.render ty :=
  Ty.render_rename henv.agree ty

theorem EmitEnv.Alike.functionSuffix : env'.functionSuffix = env.functionSuffix := by
  unfold EmitEnv.functionSuffix
  rw [henv.options]

theorem EmitEnv.Alike.linkage (ctx : DeclContext) : env'.linkage ctx = env.linkage ctx := by
  unfold EmitEnv.linkage
  rw [henv.options]

theorem EmitEnv.Alike.isRelevant (loc : SourceLoc) : env'.isRelevant loc = env.isRelevant loc := by
  unfold EmitEnv.isRelevant
  rw [henv.options]

theorem EmitEnv.Alike.functionLinkage (ctx : DeclContext) (ty : Ty) :
    env'.functionLinkage ctx (ty.rename ρ) = env.functionLinkage ctx ty := by
  unfold EmitEnv.functionLinkage
  rw [Ty.isFunction_rename, Ty.pointee?_rename, henv.linkage, Option.any_map]
  simp only [Ty.isFunction_rename]

theorem Function.rename_templateList (f : Function) :
    (f.templateList env.names).rename ρ = (f.rename ρ).templateList env'.names := by
  unfold Function.templateList
  rw [Function.rename]
  dsimp only
  cases f.templateParams with
  | none => rfl
  | some ps =>
    dsimp only [Option.map_some]
    rw [Printed.rename_append, Printed.rename_append, TemplateParam.rename_printAll henv.agree]
    rfl

theorem Function.rename_freeSignature (name : String) (f : Function) :
    (f.freeSignature env name).rename ρ = (f.rename ρ).freeSignature env' name := by
  have hret : env'.render (f.rename ρ).returnType = env.render f.returnType := henv.render _
  unfold Function.freeSignature
  rw [Printed.rename_append, Printed.rename_append, Printed.rename_append, Printed.rename_append,
    Function.rename_templateList henv, Function.rename_printParams henv.agree, hret,
    henv.functionSuffix]
  rfl

theorem Function.freeBlock_rename (name : String) (f : Function) :
    (f.rename ρ).freeBlock env' name = f.freeBlock env name := by
  have hpointer : (f.rename ρ).returnType.isPointer = f.returnType.isPointer :=
    Ty.isPointer_rename _
  unfold Function.freeBlock
  dsimp only
  rw [← Function.rename_freeSignature henv, Printed.requests_rename, Printed.text_rename,
    Function.inlineBody?_rename, hpointer]
  exact congrArg _ (@definition_rename ρ { env.print with pointerReturn := f.returnType.isPointer }
    env'.names henv.agree _ _ _ _)

end

/-! ## Member functions -/

namespace MethodInfo
variable (info : MethodInfo) (f : Function)

theorem ctorKind?_rename : (info.rename ρ).ctorKind? = info.ctorKind? := by
  unfold ctorKind?
  rw [rename]
  cases info.role <;> rfl

theorem isCtor_rename : (info.rename ρ).isCtor = info.isCtor :=
  congrArg Option.isSome (ctorKind?_rename info)

theorem isDtor_rename : (info.rename ρ).isDtor = info.isDtor := by
  unfold isDtor
  rw [rename]
  cases info.role <;> rfl

theorem mayOverride_rename : (info.rename ρ).mayOverride (f.rename ρ) = info.mayOverride f := by
  unfold mayOverride
  rw [isCtor_rename, isDtor_rename, Function.rename]
  cases f.body <;> rfl

theorem isSpecialCtor_rename : (info.rename ρ).isSpecialCtor = info.isSpecialCtor := by
  unfold isSpecialCtor
  rw [ctorKind?_rename]

theorem isCommentedOut_rename (polymorphic : Bool) :
    (info.rename ρ).isCommentedOut (f.rename ρ) polymorphic =
      info.isCommentedOut f polymorphic := by
  unfold isCommentedOut
  rw [isSpecialCtor_rename, mayOverride_rename]

theorem markerLines_rename : (info.rename ρ).markerLines = info.markerLines := by
  unfold markerLines
  rw [ctorKind?_rename]

theorem attributes_rename (access : Access) (tag : RecordTag) :
    (info.rename ρ).attributes (f.rename ρ) access tag = info.attributes f access tag := by
  unfold attributes
  rw [mayOverride_rename, isCtor_rename, isDtor_rename, ctorKind?_rename,
    Function.inlineBody?_rename, Option.isSome_map]
  rfl

end MethodInfo

theorem Function.isIdentityAssignment_rename (f : Function) (record : DeclId) :
    (f.rename ρ).isIdentityAssignment record = f.isIdentityAssignment record := by
  unfold Function.isIdentityAssignment
  rw [Function.rename]
  dsimp only
  cases f.method with
  | none => rfl
  | some info =>
    cases f.params with
    | nil => rfl
    | cons param rest =>
      cases rest with
      | nil =>
        show (info.operator == some .equal && (param.ty.rename ρ).refersTo record &&
          (f.returnType.rename ρ).refersTo record) = _
        rw [Ty.refersTo_rename, Ty.refersTo_rename]
      | cons _ _ => rfl

theorem Function.classify_rename {names names' : NameTable} (hn : names.Agree ρ names')
    (f : Function) (name : String) (record : DeclId) :
    (f.rename ρ).classify names' name record = f.classify names name record := by
  have hidentity : (f.rename ρ).isIdentityAssignment record = f.isIdentityAssignment record :=
    Function.isIdentityAssignment_rename f record
  have hparams : (f.rename ρ).params.length = f.params.length := List.length_map ..
  unfold Function.classify
  rw [hidentity, hparams, Function.rename]
  dsimp only
  cases f.method with
  | none => rfl
  | some info =>
    dsimp only [Option.map_some, MethodInfo.rename]
    cases info.role with
    | conversion target =>
      dsimp only [MethodRole.rename]
      rw [Ty.conversionTarget_rename, Ty.render_rename hn]
    | _ => rfl

namespace RecordDecl

theorem isTemplated_rename (r : RecordDecl) :
    (r.rename ρ).info.isTemplated = r.info.isTemplated := by
  show (r.info.rename ρ r.head.id).isTemplated = _
  unfold RecordInfo.isTemplated
  rw [RecordInfo.rename]
  cases r.info.template with
  | none => rfl
  | some template => cases template <;> rfl

section
variable {cx : PrintContext} {names' : NameTable} (hn : cx.names.Agree ρ names')
include hn

theorem rename_initializerTexts (r : RecordDecl) (f : Function) (info : MethodInfo)
    (body : Option Stmt) : (initializerTexts cx r f info body).map (Printed.rename ρ)
      = initializerTexts { cx with names := names' } (r.rename ρ) (f.rename ρ) (info.rename ρ)
          (body.map (Stmt.rename ρ)) := by
  unfold initializerTexts
  rw [isTemplated_rename, Function.isTemplated_rename, MethodInfo.rename]
  cases body with
  | none => rfl
  | some body =>
    cases info.role with
    | constructor kind inits =>
      dsimp only [Option.map_some, MethodRole.rename]
      split
      · rfl
      · rw [List.map_filterMap, List.filterMap_map]
        exact List.filterMap_congr fun init _ => CtorInitializer.rename_print? hn init
    | _ => rfl

end

section
variable {env env' : EmitEnv} (henv : env.Alike ρ env')
include henv

theorem bindingLines_rename {r : RecordDecl}
    (hname : env'.names.declName (r.head.rename ρ) = env.names.declName r.head)
    (method : DeclHead) (f : Function) (cls : MethodClass) (commentOut : Bool) :
    bindingLines env' (r.rename ρ) method (f.rename ρ) cls commentOut
      = bindingLines env r method f cls commentOut := by
  have hhead : env'.names.declName (r.rename ρ).head = env.names.declName r.head := hname
  unfold bindingLines
  dsimp only
  rw [henv.options, hhead]
  rfl

theorem rename_compileTimeList (f : Function) (cls : MethodClass) :
    (compileTimeList env f cls).rename ρ = compileTimeList env' (f.rename ρ) cls := by
  have hparts : ((cls.templateArg.map Printed.ofText).toList ++
        (f.templateParams.map (TemplateParam.printAll env.names)).toList).map (Printed.rename ρ)
      = (cls.templateArg.map Printed.ofText).toList ++
        ((f.rename ρ).templateParams.map (TemplateParam.printAll env'.names)).toList := by
    rw [List.map_append, Function.rename]
    dsimp only
    cases f.templateParams with
    | none => cases cls.templateArg <;> rfl
    | some ps =>
      dsimp only [Option.map_some, Option.toList_some]
      rw [← TemplateParam.rename_printAll henv.agree]
      cases cls.templateArg <;> rfl
  unfold compileTimeList
  dsimp only
  rw [← hparts, List.isEmpty_map]
  split
  · rfl
  · rw [Printed.rename_append, Printed.rename_append, Printed.rename_joined]
    rfl

theorem rename_signature (r : RecordDecl) (method : DeclHead) (f : Function) (info : MethodInfo)
    (cls : MethodClass) (commentOut : Bool) :
    (signature env r method f info cls commentOut).rename ρ
      = signature env' (r.rename ρ) method (f.rename ρ) (info.rename ρ) cls commentOut := by
  have hret : env'.render (f.rename ρ).returnType = env.render f.returnType := henv.render _
  unfold signature
  dsimp only
  rw [Printed.rename_append, Printed.rename_append, Printed.rename_append, Printed.rename_append,
    rename_compileTimeList henv, Function.rename_printParams henv.agree, hret,
    henv.functionSuffix, MethodInfo.attributes_rename, MethodInfo.isCtor_rename,
    MethodInfo.isDtor_rename]
  rfl

section
variable {r : RecordDecl}
  (hname : env'.names.declName (r.head.rename ρ) = env.names.declName r.head)
include hname

theorem classifiedBlock_rename (polymorphic : Bool) (method : DeclHead) (f : Function)
    (info : MethodInfo) (cls : MethodClass) :
    classifiedBlock env' (r.rename ρ) polymorphic method (f.rename ρ) (info.rename ρ) cls
      = classifiedBlock env r polymorphic method f info cls := by
  have hpointer : (f.rename ρ).returnType.isPointer = f.returnType.isPointer :=
    Ty.isPointer_rename _
  have hbody : (if info.isDtor then none else (f.rename ρ).inlineBody?)
      = (if info.isDtor then none else f.inlineBody?).map (Stmt.rename ρ) := by
    rw [Function.inlineBody?_rename]
    split <;> rfl
  have hinits (body : Option Stmt) :
      initializerTexts { env'.print with polymorphic } (r.rename ρ) (f.rename ρ) (info.rename ρ)
          (body.map (Stmt.rename ρ))
        = (initializerTexts { env.print with polymorphic } r f info body).map (Printed.rename ρ) :=
    (@rename_initializerTexts ρ { env.print with polymorphic } env'.names henv.agree _ _ _ _).symm
  unfold classifiedBlock
  dsimp only
  rw [MethodInfo.isCommentedOut_rename, MethodInfo.markerLines_rename, MethodInfo.isDtor_rename,
    hpointer, hbody, hinits, bindingLines_rename henv hname, ← rename_signature henv,
    Printed.requests_rename, Printed.text_rename, List.flatMap_map, List.map_map]
  simp only [Printed.requests_rename, Function.comp_def, Printed.text_rename]
  exact congrArg _ (@definition_rename ρ
    { env.print with polymorphic, pointerReturn := f.returnType.isPointer } env'.names
    henv.agree _ _ _ _)

theorem methodBlock_rename (polymorphic : Bool) (method : DeclHead) (f : Function) :
    methodBlock env' (r.rename ρ) polymorphic method (f.rename ρ)
      = methodBlock env r polymorphic method f := by
  have hinfo : (f.rename ρ).method.getD {} = (f.method.getD {}).rename ρ := by
    rw [Function.rename]
    cases f.method <;> rfl
  have hclass : (f.rename ρ).classify env'.names (method.name.getD "") (r.rename ρ).head.id
      = f.classify env.names (method.name.getD "") r.head.id :=
    Function.classify_rename henv.agree f _ _
  unfold methodBlock
  rw [hinfo, hclass]
  simp only [classifiedBlock_rename henv hname]
  rfl

end

end

end RecordDecl

end DBindings
