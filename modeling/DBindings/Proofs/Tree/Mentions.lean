import DBindings.Proofs.Tree.Walk

/-!
# What a tree refers to

Types refer to records and enums by their numbers, wherever a type stands in a tree.

* `Ty.refs`, `Expr.refs`, `Stmt.refs`, `Decl.refs`   the numbers that a part of a tree refers to;
* `TranslationUnit.refs`          those that a unit refers to;
* `Ty.mem_refs_of_desugar`, `Ty.mem_refs_of_record?`   the number of the record that a type names;
-/

namespace DBindings

/-! ## Types -/

mutual

/-- The numbers that a type refers to. -/
def Ty.refs : Ty → List DeclId
  | .pointer inner | .reference inner _ | .constantArray inner _ | .array inner
  | .qualified _ inner | .typedef _ inner => Ty.refs inner
  | .function ret params _ => Ty.refs ret ++ Ty.refsAll params
  | .record ref | .enum ref => [ref.id]
  | .templateSpecialization _ args => TemplateArg.refsAll args
  | .builtin _ | .templateParam _ | .dependent _ => []

def Ty.refsAll : List Ty → List DeclId
  | [] => []
  | ty :: tys => Ty.refs ty ++ Ty.refsAll tys

def TemplateArg.refs : TemplateArg → List DeclId
  | .type ty => Ty.refs ty
  | .integral _ _ _ | .expression _ => []

def TemplateArg.refsAll : List TemplateArg → List DeclId
  | [] => []
  | arg :: args => TemplateArg.refs arg ++ TemplateArg.refsAll args

end

theorem Ty.mem_refs_of_desugar {ref : DeclRef} :
    (ty : Ty) → ty.desugar = .record ref → ref.id ∈ ty.refs
  | .qualified _ inner, h | .typedef _ inner, h => mem_refs_of_desugar inner h
  | .record ref', h => by
    rw [Ty.record.inj h, refs]
    exact List.mem_singleton_self _
  | .builtin _, h | .pointer _, h | .reference _ _, h | .constantArray _ _, h | .array _, h
  | .function _ _ _, h | .enum _, h | .templateSpecialization _ _, h | .templateParam _, h
  | .dependent _, h => nomatch h

theorem Ty.mem_refs_of_record? {ref : DeclRef} :
    (ty : Ty) → ty.record? = some ref → ref.id ∈ ty.refs
  | .qualified _ inner, h | .typedef _ inner, h | .reference inner _, h =>
    mem_refs_of_record? inner h
  | .record ref', h => by
    rw [← Option.some.inj h, refs]
    exact List.mem_singleton_self _
  | .builtin _, h | .pointer _, h | .constantArray _ _, h | .array _, h | .function _ _ _, h
  | .enum _, h | .templateSpecialization _ _, h | .templateParam _, h | .dependent _, h =>
    nomatch h

/-! ## Expressions and statements -/

def MemberInfo.refs (info : MemberInfo) : List DeclId :=
  info.ty.refs ++ info.qualifier.toList.flatMap Ty.refs ++ TemplateArg.refsAll info.templateArgs

mutual

def Expr.refs : Expr → List DeclId
  | .declRef _ ty qualifier args =>
    ty.refs ++ qualifier.toList.flatMap Ty.refs ++ TemplateArg.refsAll args
  | .member base info => Expr.refs base ++ info.refs
  | .call callee args params | .memberCall callee args params _ =>
    Expr.refs callee ++ Expr.refsAll args ++ params.toList.flatMap Ty.refsAll
  | .operatorCall _ args => Expr.refsAll args
  | .unary _ inner | .paren inner | .deleteObject inner _ | .pseudoDestructor inner
  | .traitOfExpr _ inner => Expr.refs inner
  | .binary _ left right | .arraySubscript left right => Expr.refs left ++ Expr.refs right
  | .conditional cond yes no => Expr.refs cond ++ Expr.refs yes ++ Expr.refs no
  | .implicitCast _ inner ty | .cStyleCast ty inner | .namedCast _ ty inner
  | .functionalCast ty inner _ | .materializeTemporary inner ty => ty.refs ++ Expr.refs inner
  | .construct ty args _ _ | .temporaryObject ty args | .unresolvedConstruct ty args
  | .initList ty args => ty.refs ++ Expr.refsAll args
  | .newObject ty placement init _ =>
    ty.refs ++ Expr.refsAll placement ++ Expr.refsOption init
  | .traitOfType _ ty => ty.refs
  | .dependentMember base _ args => Expr.refsOption base ++ TemplateArg.refsAll args
  | .integerLiteral _ _ | .floatLiteral _ _ | .charLiteral _ _ | .stringLiteral _ _
  | .boolLiteral _ | .nullPtr | .thisPtr _ | .defaultArg | .unknown _ => []

def Expr.refsAll : List Expr → List DeclId
  | [] => []
  | e :: es => Expr.refs e ++ Expr.refsAll es

def Expr.refsOption : Option Expr → List DeclId
  | none => []
  | some e => Expr.refs e

end

def LocalVar.refs (v : LocalVar) : List DeclId := v.ty.refs ++ Expr.refsOption v.init

mutual

def Stmt.refs : Stmt → List DeclId
  | .compound body => Stmt.refsAll body
  | .expr e => e.refs
  | .decl vars => vars.flatMap LocalVar.refs
  | .ret value => Expr.refsOption value
  | .ifThen cond yes no => cond.refs ++ Stmt.refs yes ++ Stmt.refsOption no
  | .whileLoop cond body | .doLoop body cond | .switch cond body | .caseLabel cond body =>
    cond.refs ++ Stmt.refs body
  | .forLoop init cond inc body =>
    Stmt.refsOption init ++ Expr.refsOption cond ++ Expr.refsOption inc ++ Stmt.refs body
  | .defaultLabel body | .label _ body => Stmt.refs body
  | .goto _ | .break_ | .continue_ | .null => []

def Stmt.refsAll : List Stmt → List DeclId
  | [] => []
  | s :: rest => Stmt.refs s ++ Stmt.refsAll rest

def Stmt.refsOption : Option Stmt → List DeclId
  | none => []
  | some s => Stmt.refs s

end

/-! ## Declarations -/

def TemplateParam.refs (p : TemplateParam) : List DeclId :=
  p.nonType.toList.flatMap Ty.refs ++ Expr.refsOption p.default

def RecordTemplate.refs : RecordTemplate → List DeclId
  | .described params => params.flatMap TemplateParam.refs
  | .specialization args => TemplateArg.refsAll args

def Field.refs (f : Field) : List DeclId := f.ty.refs ++ Expr.refsOption f.inClassInit

def RecordInfo.refs (info : RecordInfo) : List DeclId :=
  info.bases.flatMap (fun base => base.ty.refs) ++ info.fields.flatMap Field.refs ++
    info.template.toList.flatMap RecordTemplate.refs

def MethodRole.refs : MethodRole → List DeclId
  | .constructor _ initializers => initializers.flatMap fun init => init.init.refs
  | .conversion target => target.refs
  | .normal | .destructor => []

def Param.refs (p : Param) : List DeclId := p.ty.refs ++ Expr.refsOption p.default

def Function.refs (f : Function) : List DeclId :=
  f.returnType.refs ++ f.params.flatMap Param.refs ++
    f.templateParams.toList.flatMap (List.flatMap TemplateParam.refs) ++
    f.body.toList.flatMap Stmt.refs ++ f.method.toList.flatMap fun info => info.role.refs

/-- The numbers that a declaration refers to, apart from those inside it. -/
def Decl.refs : Decl → List DeclId
  | .record _ info _ _ => info.refs
  | .enumeration _ e => e.integerType.refs
  | .function _ f => f.refs
  | .typedef _ underlying => underlying.refs
  | .var _ v => v.ty.refs ++ Expr.refsOption v.init
  | .space _ _ | .macroDef _ _ => []

def TranslationUnit.refs (unit : TranslationUnit) : List DeclId := unit.walk.flatMap Decl.refs

end DBindings
