import DBindings.Naming.Table
import DBindings.Proofs.Tree.Walk

/-!
# Renaming in a tree

A renaming gives names to records that have none, where they are declared and wherever a type refers
to them, and to unnamed fields.  The shape of the tree stays.

* `Renaming`                      the names that are given;
* `Ty.rename`, `Expr.rename`, `Stmt.rename`, `Decl.rename`   parts of a tree under these names;
* `TranslationUnit.givenNames`    the names that the name table of a unit gives;
* `TranslationUnit.rename`        the unit with these names in place;
* `Decl.walk_rename`, `TranslationUnit.walk_renameBy`   the declarations of a renamed tree.
-/

namespace DBindings

/-- Names given to records by their number, and to fields by the number of their record and their
position. -/
structure Renaming where
  record? : DeclId → Option String
  field? : DeclId → Nat → Option String

/-- A reference to a record that is given a name. -/
def DeclRef.rename (ρ : Renaming) (ref : DeclRef) : DeclRef :=
  { ref with name := (ρ.record? ref.id).getD ref.name }

/-! ## Types -/

mutual

def Ty.rename (ρ : Renaming) : Ty → Ty
  | .builtin kind => .builtin kind
  | .pointer inner => .pointer (Ty.rename ρ inner)
  | .reference inner rvalue => .reference (Ty.rename ρ inner) rvalue
  | .constantArray element size => .constantArray (Ty.rename ρ element) size
  | .array element => .array (Ty.rename ρ element)
  | .function ret params variadic =>
    .function (Ty.rename ρ ret) (Ty.renameAll ρ params) variadic
  | .record ref => .record (ref.rename ρ)
  | .enum ref => .enum (ref.rename ρ)
  | .templateSpecialization template args =>
    .templateSpecialization template (TemplateArg.renameAll ρ args)
  | .qualified isConst inner => .qualified isConst (Ty.rename ρ inner)
  | .typedef name underlying => .typedef name (Ty.rename ρ underlying)
  | .templateParam name => .templateParam name
  | .dependent spelling => .dependent spelling

def Ty.renameAll (ρ : Renaming) : List Ty → List Ty
  | [] => []
  | ty :: tys => Ty.rename ρ ty :: Ty.renameAll ρ tys

def TemplateArg.rename (ρ : Renaming) : TemplateArg → TemplateArg
  | .type ty => .type (Ty.rename ρ ty)
  | .integral value bits signed => .integral value bits signed
  | .expression spelling => .expression spelling

def TemplateArg.renameAll (ρ : Renaming) : List TemplateArg → List TemplateArg
  | [] => []
  | arg :: args => TemplateArg.rename ρ arg :: TemplateArg.renameAll ρ args

end

/-! ## Expressions and statements -/

def MemberInfo.rename (ρ : Renaming) (info : MemberInfo) : MemberInfo :=
  { info with
    ty := info.ty.rename ρ
    qualifier := info.qualifier.map (Ty.rename ρ)
    templateArgs := TemplateArg.renameAll ρ info.templateArgs }

mutual

def Expr.rename (ρ : Renaming) : Expr → Expr
  | .declRef name ty qualifier args =>
    .declRef name (ty.rename ρ) (qualifier.map (Ty.rename ρ)) (TemplateArg.renameAll ρ args)
  | .member base info => .member (Expr.rename ρ base) (info.rename ρ)
  | .call callee args params =>
    .call (Expr.rename ρ callee) (Expr.renameAll ρ args) (params.map (Ty.renameAll ρ))
  | .memberCall callee args params conversion =>
    .memberCall (Expr.rename ρ callee) (Expr.renameAll ρ args) (params.map (Ty.renameAll ρ))
      conversion
  | .operatorCall op args => .operatorCall op (Expr.renameAll ρ args)
  | .unary op operand => .unary op (Expr.rename ρ operand)
  | .binary op lhs rhs => .binary op (Expr.rename ρ lhs) (Expr.rename ρ rhs)
  | .conditional cond yes no =>
    .conditional (Expr.rename ρ cond) (Expr.rename ρ yes) (Expr.rename ρ no)
  | .paren inner => .paren (Expr.rename ρ inner)
  | .implicitCast kind inner ty => .implicitCast kind (Expr.rename ρ inner) (ty.rename ρ)
  | .cStyleCast ty inner => .cStyleCast (ty.rename ρ) (Expr.rename ρ inner)
  | .namedCast kind ty inner => .namedCast kind (ty.rename ρ) (Expr.rename ρ inner)
  | .functionalCast ty inner parens => .functionalCast (ty.rename ρ) (Expr.rename ρ inner) parens
  | .construct ty args listInit stdInitList =>
    .construct (ty.rename ρ) (Expr.renameAll ρ args) listInit stdInitList
  | .temporaryObject ty args => .temporaryObject (ty.rename ρ) (Expr.renameAll ρ args)
  | .unresolvedConstruct ty args => .unresolvedConstruct (ty.rename ρ) (Expr.renameAll ρ args)
  | .materializeTemporary inner ty => .materializeTemporary (Expr.rename ρ inner) (ty.rename ρ)
  | .newObject ty placement init style =>
    .newObject (ty.rename ρ) (Expr.renameAll ρ placement) (Expr.renameOption ρ init) style
  | .deleteObject inner array => .deleteObject (Expr.rename ρ inner) array
  | .pseudoDestructor base => .pseudoDestructor (Expr.rename ρ base)
  | .traitOfType kind ty => .traitOfType kind (ty.rename ρ)
  | .traitOfExpr kind inner => .traitOfExpr kind (Expr.rename ρ inner)
  | .arraySubscript base index => .arraySubscript (Expr.rename ρ base) (Expr.rename ρ index)
  | .initList ty exprs => .initList (ty.rename ρ) (Expr.renameAll ρ exprs)
  | .dependentMember base name args =>
    .dependentMember (Expr.renameOption ρ base) name (TemplateArg.renameAll ρ args)
  -- literals, `this` and what is already spelled
  | e => e

def Expr.renameAll (ρ : Renaming) : List Expr → List Expr
  | [] => []
  | e :: es => Expr.rename ρ e :: Expr.renameAll ρ es

def Expr.renameOption (ρ : Renaming) : Option Expr → Option Expr
  | none => none
  | some e => some (Expr.rename ρ e)

end

def LocalVar.rename (ρ : Renaming) (v : LocalVar) : LocalVar :=
  { v with ty := v.ty.rename ρ, init := v.init.map (Expr.rename ρ) }

mutual

def Stmt.rename (ρ : Renaming) : Stmt → Stmt
  | .compound body => .compound (Stmt.renameAll ρ body)
  | .expr e => .expr (e.rename ρ)
  | .decl vars => .decl (vars.map (LocalVar.rename ρ))
  | .ret value => .ret (value.map (Expr.rename ρ))
  | .ifThen cond yes no =>
    .ifThen (cond.rename ρ) (Stmt.rename ρ yes) (Stmt.renameOption ρ no)
  | .whileLoop cond body => .whileLoop (cond.rename ρ) (Stmt.rename ρ body)
  | .doLoop body cond => .doLoop (Stmt.rename ρ body) (cond.rename ρ)
  | .forLoop init cond inc body =>
    .forLoop (Stmt.renameOption ρ init) (cond.map (Expr.rename ρ)) (inc.map (Expr.rename ρ))
      (Stmt.rename ρ body)
  | .switch cond body => .switch (cond.rename ρ) (Stmt.rename ρ body)
  | .caseLabel value body => .caseLabel (value.rename ρ) (Stmt.rename ρ body)
  | .defaultLabel body => .defaultLabel (Stmt.rename ρ body)
  | .label name body => .label name (Stmt.rename ρ body)
  | .goto name => .goto name
  | .break_ => .break_
  | .continue_ => .continue_
  | .null => .null

def Stmt.renameAll (ρ : Renaming) : List Stmt → List Stmt
  | [] => []
  | s :: rest => Stmt.rename ρ s :: Stmt.renameAll ρ rest

def Stmt.renameOption (ρ : Renaming) : Option Stmt → Option Stmt
  | none => none
  | some s => some (Stmt.rename ρ s)

end

/-! ## Declarations -/

/-- The head of a record: the given name stands in for one that is absent. -/
def DeclHead.rename (ρ : Renaming) (head : DeclHead) : DeclHead :=
  { head with name := head.name.or (ρ.record? head.id) }

def BaseSpec.rename (ρ : Renaming) (base : BaseSpec) : BaseSpec :=
  { base with ty := base.ty.rename ρ }

def TemplateParam.rename (ρ : Renaming) (p : TemplateParam) : TemplateParam :=
  { p with nonType := p.nonType.map (Ty.rename ρ), default := p.default.map (Expr.rename ρ) }

def RecordTemplate.rename (ρ : Renaming) : RecordTemplate → RecordTemplate
  | .described params => .described (params.map (TemplateParam.rename ρ))
  | .specialization args => .specialization (TemplateArg.renameAll ρ args)

/-- The field at a position of a record; bit-fields keep no name. -/
def Field.rename (ρ : Renaming) (record : DeclId) (position : Nat) (field : Field) : Field :=
  { field with
    name := if field.name.isSome || field.bitWidth.isSome then field.name
      else ρ.field? record position
    ty := field.ty.rename ρ
    inClassInit := field.inClassInit.map (Expr.rename ρ) }

/-- The fields of a record from a position on. -/
def Field.renameFrom (ρ : Renaming) (record : DeclId) : Nat → List Field → List Field
  | _, [] => []
  | position, field :: rest =>
    field.rename ρ record position :: renameFrom ρ record (position + 1) rest

def RecordInfo.rename (ρ : Renaming) (record : DeclId) (info : RecordInfo) : RecordInfo :=
  { info with
    bases := info.bases.map (BaseSpec.rename ρ)
    fields := Field.renameFrom ρ record 0 info.fields
    template := info.template.map (RecordTemplate.rename ρ) }

def CtorInitializer.rename (ρ : Renaming) (init : CtorInitializer) : CtorInitializer :=
  { init with init := init.init.rename ρ }

def MethodRole.rename (ρ : Renaming) : MethodRole → MethodRole
  | .normal => .normal
  | .constructor kind initializers =>
    .constructor kind (initializers.map (CtorInitializer.rename ρ))
  | .destructor => .destructor
  | .conversion target => .conversion (target.rename ρ)

def MethodInfo.rename (ρ : Renaming) (info : MethodInfo) : MethodInfo :=
  { info with role := info.role.rename ρ }

def Param.rename (ρ : Renaming) (p : Param) : Param :=
  { p with ty := p.ty.rename ρ, default := p.default.map (Expr.rename ρ) }

def Function.rename (ρ : Renaming) (f : Function) : Function :=
  { f with
    returnType := f.returnType.rename ρ
    params := f.params.map (Param.rename ρ)
    templateParams := f.templateParams.map fun ps => ps.map (TemplateParam.rename ρ)
    body := f.body.map (Stmt.rename ρ)
    method := f.method.map (MethodInfo.rename ρ) }

def Enumeration.rename (ρ : Renaming) (e : Enumeration) : Enumeration :=
  { e with integerType := e.integerType.rename ρ }

def Variable.rename (ρ : Renaming) (v : Variable) : Variable :=
  { v with ty := v.ty.rename ρ, init := v.init.map (Expr.rename ρ) }

mutual

def Decl.rename (ρ : Renaming) : Decl → Decl
  | .space head members => .space head (Decl.renameAll ρ members)
  | .record head info members methods =>
    .record (head.rename ρ) (info.rename ρ head.id) (Decl.renameAll ρ members)
      (Decl.renameAll ρ methods)
  | .enumeration head enum => .enumeration head (enum.rename ρ)
  | .function head func => .function head (func.rename ρ)
  | .typedef head underlying => .typedef head (underlying.rename ρ)
  | .var head v => .var head (v.rename ρ)
  | .macroDef head definition => .macroDef head definition

def Decl.renameAll (ρ : Renaming) : List Decl → List Decl
  | [] => []
  | d :: ds => Decl.rename ρ d :: Decl.renameAll ρ ds

end

def RecordDecl.rename (ρ : Renaming) (r : RecordDecl) : RecordDecl :=
  ⟨r.head.rename ρ, r.info.rename ρ r.head.id, Decl.renameAll ρ r.members,
    Decl.renameAll ρ r.methods⟩

namespace TranslationUnit

/-- The declaration with a number is a record without a name. -/
def isAnonymous (unit : TranslationUnit) (id : DeclId) : Bool :=
  ((DeclIndex.ofUnit unit).record? id).any (·.head.name.isNone)

/-- The names that the name table of a unit gives to its anonymous records and unnamed fields. -/
def givenNames (unit : TranslationUnit) : Renaming where
  record? id := if unit.isAnonymous id then (NameTable.assign unit).get? id else none
  field? := (NameTable.assign unit).fieldName?

/-- A unit under a renaming. -/
def renameBy (ρ : Renaming) (unit : TranslationUnit) : TranslationUnit :=
  ⟨unit.files.map fun file => { file with decls := Decl.renameAll ρ file.decls }⟩

/-- The unit with the names of its name table in place. -/
def rename (unit : TranslationUnit) : TranslationUnit := unit.renameBy unit.givenNames

end TranslationUnit

/-! ## The shape of a renamed tree -/

theorem Decl.renameAll_eq_map (ρ : Renaming) (ds : List Decl) :
    renameAll ρ ds = ds.map (rename ρ) := by
  induction ds with
  | nil => rfl
  | cons d ds ih => rw [renameAll, ih, List.map_cons]

theorem Expr.renameAll_eq_map (ρ : Renaming) (es : List Expr) :
    renameAll ρ es = es.map (rename ρ) := by
  induction es with
  | nil => rfl
  | cons e es ih => rw [renameAll, ih, List.map_cons]

theorem Ty.renameAll_eq_map (ρ : Renaming) (tys : List Ty) :
    renameAll ρ tys = tys.map (rename ρ) := by
  induction tys with
  | nil => rfl
  | cons ty tys ih => rw [renameAll, ih, List.map_cons]

theorem TemplateArg.renameAll_eq_map (ρ : Renaming) (args : List TemplateArg) :
    renameAll ρ args = args.map (rename ρ) := by
  induction args with
  | nil => rfl
  | cons arg args ih => rw [renameAll, ih, List.map_cons]

theorem Decl.id_rename (ρ : Renaming) (d : Decl) : (d.rename ρ).id = d.id := by
  cases d <;> rfl

theorem Decl.record?_rename (ρ : Renaming) (d : Decl) :
    (d.rename ρ).record? = d.record?.map (RecordDecl.rename ρ) := by
  cases d <;> rfl

namespace Decl

mutual

theorem walk_rename (ρ : Renaming) : (d : Decl) → (d.rename ρ).walk = d.walk.map (rename ρ)
  | space head members => by
    rw [rename, walk, walk, walkAll_rename ρ members, List.map_cons, rename]
  | record head info members methods => by
    rw [rename, walk, walk, walkAll_rename ρ members, walkAll_rename ρ methods, List.map_cons,
      List.map_append, rename]
  | enumeration _ _ | function _ _ | typedef _ _ | var _ _ | macroDef _ _ => rfl

theorem walkAll_rename (ρ : Renaming) :
    (ds : List Decl) → walkAll (renameAll ρ ds) = (walkAll ds).map (rename ρ)
  | [] => rfl
  | d :: ds => by
    rw [renameAll, walkAll, walkAll, walk_rename ρ d, walkAll_rename ρ ds, List.map_append]

end

end Decl

theorem TranslationUnit.walk_renameBy (ρ : Renaming) (unit : TranslationUnit) :
    (unit.renameBy ρ).walk = unit.walk.map (Decl.rename ρ) := by
  unfold walk renameBy
  rw [List.flatMap_map, List.map_flatMap]
  simp only [Decl.walkAll_rename]

namespace DeclIndex

def rename (ρ : Renaming) (index : DeclIndex) : DeclIndex := ⟨index.decls.map (Decl.rename ρ)⟩

theorem ofUnit_renameBy (ρ : Renaming) (unit : TranslationUnit) :
    ofUnit (unit.renameBy ρ) = (ofUnit unit).rename ρ :=
  congrArg DeclIndex.mk (TranslationUnit.walk_renameBy ρ unit)

theorem get?_rename (ρ : Renaming) (index : DeclIndex) (id : DeclId) :
    (index.rename ρ).get? id = (index.get? id).map (Decl.rename ρ) := by
  unfold get? rename
  rw [List.find?_map]
  simp only [Function.comp_def, Decl.id_rename]

theorem record?_rename (ρ : Renaming) (index : DeclIndex) (id : DeclId) :
    (index.rename ρ).record? id = (index.record? id).map (RecordDecl.rename ρ) := by
  unfold record?
  rw [get?_rename]
  cases index.get? id with
  | none => rfl
  | some d => exact d.record?_rename ρ

end DeclIndex

end DBindings
