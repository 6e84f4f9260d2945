import DBindings.Proofs.Renaming.Rename
import DBindings.Proofs.Tree.Mentions

/-!
# Names for other declarations

A renaming that has no name for anything that a part of a tree refers to leaves this part as it is.

* `Renaming.Spares`        a renaming has no name for any of some declarations;
* `Ty.rename_eq_self`, `Expr.rename_eq_self`, `Stmt.rename_eq_self`   parts that stay as they are;
* `Decl.rename_eq_self`    so are declarations, with those inside them;
* `DeclIndex.rename_eq_self`   and so is an index of them.
-/

namespace DBindings

/-- A renaming has no name for any of some declarations. -/
def Renaming.Spares (ρ : Renaming) (ids : List DeclId) : Prop := ∀ id ∈ ids, ρ.record? id = none

namespace Renaming

theorem spares_append {ρ : Renaming} {a b : List DeclId} :
    ρ.Spares (a ++ b) ↔ ρ.Spares a ∧ ρ.Spares b := List.forall_mem_append

theorem Spares.of_mem {ρ : Renaming} {α : Type} {l : List α} {f : α → List DeclId}
    (h : ρ.Spares (l.flatMap f)) {x : α} (hx : x ∈ l) : ρ.Spares (f x) :=
  fun id hid => h id (List.mem_flatMap.2 ⟨x, hx, hid⟩)

theorem Spares.map {ρ : Renaming} {α : Type} {l : List α} {f : α → List DeclId} {g : α → α}
    (h : ρ.Spares (l.flatMap f)) (hg : ∀ x, ρ.Spares (f x) → g x = x) : l.map g = l := by
  have hself := List.map_congr_left fun x hx => hg x (h.of_mem hx)
  rwa [List.map_id'] at hself

theorem Spares.option {ρ : Renaming} {α : Type} {o : Option α} {f : α → List DeclId} {g : α → α}
    (h : ρ.Spares (o.toList.flatMap f)) (hg : ∀ x, ρ.Spares (f x) → g x = x) : o.map g = o := by
  cases o with
  | none => rfl
  | some x => exact congrArg some (hg x (h.of_mem (List.mem_singleton_self x)))

end Renaming

variable {ρ : Renaming}

theorem DeclRef.rename_eq_self {ref : DeclRef} (h : ρ.Spares [ref.id]) : ref.rename ρ = ref := by
  unfold DeclRef.rename
  rw [h ref.id (List.mem_singleton_self _)]
  rfl

mutual

theorem Ty.rename_eq_self : (ty : Ty) → ρ.Spares ty.refs → ty.rename ρ = ty
  | .pointer inner, h | .reference inner _, h | .constantArray inner _, h | .array inner, h
  | .qualified _ inner, h | .typedef _ inner, h => by
    rw [Ty.rename, Ty.rename_eq_self inner h]
  | .function ret params _, h => by
    obtain ⟨hret, hparams⟩ := Renaming.spares_append.1 h
    rw [Ty.rename, Ty.rename_eq_self ret hret, Ty.renameAll_eq_self params hparams]
  | .record ref, h | .enum ref, h => by
    rw [Ty.rename, DeclRef.rename_eq_self h]
  | .templateSpecialization _ args, h => by
    rw [Ty.rename, TemplateArg.renameAll_eq_self args h]
  | .builtin _, _ | .templateParam _, _ | .dependent _, _ => rfl

theorem Ty.renameAll_eq_self : (tys : List Ty) → ρ.Spares (Ty.refsAll tys) →
    Ty.renameAll ρ tys = tys
  | [], _ => rfl
  | ty :: tys, h => by
    obtain ⟨hty, htys⟩ := Renaming.spares_append.1 h
    rw [Ty.renameAll, Ty.rename_eq_self ty hty, Ty.renameAll_eq_self tys htys]

theorem TemplateArg.rename_eq_self : (arg : TemplateArg) → ρ.Spares arg.refs → arg.rename ρ = arg
  | .type ty, h => by
    rw [TemplateArg.rename, Ty.rename_eq_self ty h]
  | .integral _ _ _, _ | .expression _, _ => rfl

theorem TemplateArg.renameAll_eq_self : (args : List TemplateArg) →
    ρ.Spares (TemplateArg.refsAll args) → TemplateArg.renameAll ρ args = args
  | [], _ => rfl
  | arg :: args, h => by
    obtain ⟨harg, hargs⟩ := Renaming.spares_append.1 h
    rw [TemplateArg.renameAll, TemplateArg.rename_eq_self arg harg,
      TemplateArg.renameAll_eq_self args hargs]

end

theorem MemberInfo.rename_eq_self {info : MemberInfo} (h : ρ.Spares info.refs) :
    info.rename ρ = info := by
  obtain ⟨h, hargs⟩ := Renaming.spares_append.1 h
  obtain ⟨hty, hqualifier⟩ := Renaming.spares_append.1 h
  unfold MemberInfo.rename
  rw [Ty.rename_eq_self _ hty, hqualifier.option Ty.rename_eq_self,
    TemplateArg.renameAll_eq_self _ hargs]

mutual

theorem Expr.rename_eq_self : (e : Expr) → ρ.Spares e.refs → e.rename ρ = e
  | .declRef _ ty _ args, h => by
    obtain ⟨h, hargs⟩ := Renaming.spares_append.1 h
    obtain ⟨hty, hqualifier⟩ := Renaming.spares_append.1 h
    rw [Expr.rename, Ty.rename_eq_self ty hty, hqualifier.option Ty.rename_eq_self,
      TemplateArg.renameAll_eq_self args hargs]
  | .member base _, h => by
    obtain ⟨hbase, hinfo⟩ := Renaming.spares_append.1 h
    rw [Expr.rename, Expr.rename_eq_self base hbase, MemberInfo.rename_eq_self hinfo]
  | .call callee args _, h | .memberCall callee args _ _, h => by
    obtain ⟨h, hparams⟩ := Renaming.spares_append.1 h
    obtain ⟨hcallee, hargs⟩ := Renaming.spares_append.1 h
    rw [Expr.rename, Expr.rename_eq_self callee hcallee, Expr.renameAll_eq_self args hargs,
      hparams.option Ty.renameAll_eq_self]
  | .operatorCall _ args, h => by
    rw [Expr.rename, Expr.renameAll_eq_self args h]
  | .unary _ inner, h | .paren inner, h | .deleteObject inner _, h | .pseudoDestructor inner, h
  | .traitOfExpr _ inner, h => by
    rw [Expr.rename, Expr.rename_eq_self inner h]
  | .binary _ left right, h | .arraySubscript left right, h => by
    obtain ⟨hleft, hright⟩ := Renaming.spares_append.1 h
    rw [Expr.rename, Expr.rename_eq_self left hleft, Expr.rename_eq_self right hright]
  | .conditional cond yes no, h => by
    obtain ⟨h, hno⟩ := Renaming.spares_append.1 h
    obtain ⟨hcond, hyes⟩ := Renaming.spares_append.1 h
    rw [Expr.rename, Expr.rename_eq_self cond hcond, Expr.rename_eq_self yes hyes,
      Expr.rename_eq_self no hno]
  | .implicitCast _ inner ty, h | .cStyleCast ty inner, h | .namedCast _ ty inner, h
  | .functionalCast ty inner _, h | .materializeTemporary inner ty, h => by
    obtain ⟨hty, hinner⟩ := Renaming.spares_append.1 h
    rw [Expr.rename, Ty.rename_eq_self ty hty, Expr.rename_eq_self inner hinner]
  | .construct ty args _ _, h | .temporaryObject ty args, h | .unresolvedConstruct ty args, h
  | .initList ty args, h => by
    obtain ⟨hty, hargs⟩ := Renaming.spares_append.1 h
    rw [Expr.rename, Ty.rename_eq_self ty hty, Expr.renameAll_eq_self args hargs]
  | .newObject ty placement init _, h => by
    obtain ⟨h, hinit⟩ := Renaming.spares_append.1 h
    obtain ⟨hty, hplacement⟩ := Renaming.spares_append.1 h
    rw [Expr.rename, Ty.rename_eq_self ty hty, Expr.renameAll_eq_self placement hplacement,
      Expr.renameOption_eq_self init hinit]
  | .traitOfType _ ty, h => by
    rw [Expr.rename, Ty.rename_eq_self ty h]
  | .dependentMember base _ args, h => by
    obtain ⟨hbase, hargs⟩ := Renaming.spares_append.1 h
    rw [Expr.rename, Expr.renameOption_eq_self base hbase,
      TemplateArg.renameAll_eq_self args hargs]
  | .integerLiteral _ _, _ | .floatLiteral _ _, _ | .charLiteral _ _, _ | .stringLiteral _ _, _
  | .boolLiteral _, _ | .nullPtr, _ | .thisPtr _, _ | .defaultArg, _ | .unknown _, _ => rfl

theorem Expr.renameAll_eq_self : (es : List Expr) → ρ.Spares (Expr.refsAll es) →
    Expr.renameAll ρ es = es
  | [], _ => rfl
  | e :: es, h => by
    obtain ⟨he, hes⟩ := Renaming.spares_append.1 h
    rw [Expr.renameAll, Expr.rename_eq_self e he, Expr.renameAll_eq_self es hes]

theorem Expr.renameOption_eq_self : (e : Option Expr) → ρ.Spares (Expr.refsOption e) →
    Expr.renameOption ρ e = e
  | none, _ => rfl
  | some e, h => by
    rw [Expr.renameOption, Expr.rename_eq_self e h]

end

theorem Expr.map_rename_eq_self {e : Option Expr} (h : ρ.Spares (Expr.refsOption e)) :
    e.map (Expr.rename ρ) = e := by
  cases e with
  | none => rfl
  | some e => exact congrArg some (Expr.rename_eq_self e h)

theorem LocalVar.rename_eq_self {v : LocalVar} (h : ρ.Spares v.refs) : v.rename ρ = v := by
  obtain ⟨hty, hinit⟩ := Renaming.spares_append.1 h
  unfold LocalVar.rename
  rw [Ty.rename_eq_self _ hty, Expr.map_rename_eq_self hinit]

mutual

theorem Stmt.rename_eq_self : (s : Stmt) → ρ.Spares s.refs → s.rename ρ = s
  | .compound body, h => by
    rw [Stmt.rename, Stmt.renameAll_eq_self body h]
  | .expr e, h => by
    rw [Stmt.rename, Expr.rename_eq_self e h]
  | .decl vars, h => by
    rw [Stmt.rename, Renaming.Spares.map h fun _ => LocalVar.rename_eq_self]
  | .ret value, h => by
    rw [Stmt.rename, Expr.map_rename_eq_self h]
  | .ifThen cond yes no, h => by
    obtain ⟨h, hno⟩ := Renaming.spares_append.1 h
    obtain ⟨hcond, hyes⟩ := Renaming.spares_append.1 h
    rw [Stmt.rename, Expr.rename_eq_self cond hcond, Stmt.rename_eq_self yes hyes,
      Stmt.renameOption_eq_self no hno]
  | .whileLoop cond body, h | .doLoop body cond, h | .switch cond body, h
  | .caseLabel cond body, h => by
    obtain ⟨hcond, hbody⟩ := Renaming.spares_append.1 h
    rw [Stmt.rename, Expr.rename_eq_self cond hcond, Stmt.rename_eq_self body hbody]
  | .forLoop init cond inc body, h => by
    obtain ⟨h, hbody⟩ := Renaming.spares_append.1 h
    obtain ⟨h, hinc⟩ := Renaming.spares_append.1 h
    obtain ⟨hinit, hcond⟩ := Renaming.spares_append.1 h
    rw [Stmt.rename, Stmt.renameOption_eq_self init hinit, Expr.map_rename_eq_self hcond,
      Expr.map_rename_eq_self hinc, Stmt.rename_eq_self body hbody]
  | .defaultLabel body, h | .label _ body, h => by
    rw [Stmt.rename, Stmt.rename_eq_self body h]
  | .goto _, _ | .break_, _ | .continue_, _ | .null, _ => rfl

theorem Stmt.renameAll_eq_self : (body : List Stmt) → ρ.Spares (Stmt.refsAll body) →
    Stmt.renameAll ρ body = body
  | [], _ => rfl
  | s :: rest, h => by
    obtain ⟨hs, hrest⟩ := Renaming.spares_append.1 h
    rw [Stmt.renameAll, Stmt.rename_eq_self s hs, Stmt.renameAll_eq_self rest hrest]

theorem Stmt.renameOption_eq_self : (s : Option Stmt) → ρ.Spares (Stmt.refsOption s) →
    Stmt.renameOption ρ s = s
  | none, _ => rfl
  | some s, h => by
    rw [Stmt.renameOption, Stmt.rename_eq_self s h]

end

theorem TemplateParam.rename_eq_self {p : TemplateParam} (h : ρ.Spares p.refs) :
    p.rename ρ = p := by
  obtain ⟨htype, hdefault⟩ := Renaming.spares_append.1 h
  unfold TemplateParam.rename
  rw [htype.option Ty.rename_eq_self, Expr.map_rename_eq_self hdefault]

theorem RecordTemplate.rename_eq_self (template : RecordTemplate) (h : ρ.Spares template.refs) :
    template.rename ρ = template := by
  cases template with
  | described params =>
    rw [RecordTemplate.rename, Renaming.Spares.map h fun _ => TemplateParam.rename_eq_self]
  | specialization args => rw [RecordTemplate.rename, TemplateArg.renameAll_eq_self args h]

theorem Field.rename_eq_self {record : DeclId} {position : Nat} {f : Field} (h : ρ.Spares f.refs)
    (hfield : ρ.field? record position = none) : f.rename ρ record position = f := by
  obtain ⟨hty, hinit⟩ := Renaming.spares_append.1 h
  have hname : (if f.name.isSome || f.bitWidth.isSome then f.name
      else ρ.field? record position) = f.name := by
    rw [hfield]
    cases f.name with
    | none => rw [ite_self]
    | some name => rfl
  unfold Field.rename
  rw [hname, Ty.rename_eq_self _ hty, Expr.map_rename_eq_self hinit]

theorem Field.renameFrom_eq_self {record : DeclId} (hfields : ∀ i, ρ.field? record i = none)
    (position : Nat) (fields : List Field) (h : ρ.Spares (fields.flatMap Field.refs)) :
    renameFrom ρ record position fields = fields := by
  induction fields generalizing position with
  | nil => rfl
  | cons f rest ih =>
    rw [List.flatMap_cons] at h
    obtain ⟨hf, hrest⟩ := Renaming.spares_append.1 h
    rw [renameFrom, Field.rename_eq_self hf (hfields position), ih (position + 1) hrest]

theorem RecordInfo.rename_eq_self {record : DeclId} {info : RecordInfo} (h : ρ.Spares info.refs)
    (hfields : ∀ i, ρ.field? record i = none) : info.rename ρ record = info := by
  obtain ⟨h, htemplate⟩ := Renaming.spares_append.1 h
  obtain ⟨hbases, hinfo⟩ := Renaming.spares_append.1 h
  have hbase : ∀ base : BaseSpec, ρ.Spares base.ty.refs → base.rename ρ = base := by
    intro base hty
    unfold BaseSpec.rename
    rw [Ty.rename_eq_self _ hty]
  unfold RecordInfo.rename
  rw [hbases.map hbase, Field.renameFrom_eq_self hfields 0 _ hinfo,
    htemplate.option RecordTemplate.rename_eq_self]

theorem MethodRole.rename_eq_self (role : MethodRole) (h : ρ.Spares role.refs) :
    role.rename ρ = role := by
  cases role with
  | constructor kind initializers =>
    have hinit : ∀ init : CtorInitializer, ρ.Spares init.init.refs → init.rename ρ = init := by
      intro init he
      unfold CtorInitializer.rename
      rw [Expr.rename_eq_self _ he]
    rw [MethodRole.rename, Renaming.Spares.map h hinit]
  | conversion target => rw [MethodRole.rename, Ty.rename_eq_self target h]
  | normal | destructor => rfl

theorem Param.rename_eq_self {p : Param} (h : ρ.Spares p.refs) : p.rename ρ = p := by
  obtain ⟨hty, hdefault⟩ := Renaming.spares_append.1 h
  unfold Param.rename
  rw [Ty.rename_eq_self _ hty, Expr.map_rename_eq_self hdefault]

theorem Function.rename_eq_self {f : Function} (h : ρ.Spares f.refs) : f.rename ρ = f := by
  obtain ⟨h, hmethod⟩ := Renaming.spares_append.1 h
  obtain ⟨h, hbody⟩ := Renaming.spares_append.1 h
  obtain ⟨h, htemplate⟩ := Renaming.spares_append.1 h
  obtain ⟨hret, hparams⟩ := Renaming.spares_append.1 h
  have hinfo : ∀ info : MethodInfo, ρ.Spares info.role.refs → info.rename ρ = info := by
    intro info hrole
    unfold MethodInfo.rename
    rw [MethodRole.rename_eq_self _ hrole]
  have htemplates : f.templateParams.map (List.map (TemplateParam.rename ρ)) = f.templateParams :=
    htemplate.option fun _ hps => hps.map fun _ => TemplateParam.rename_eq_self
  unfold Function.rename
  rw [Ty.rename_eq_self _ hret, hparams.map fun _ => Param.rename_eq_self, htemplates,
    hbody.option Stmt.rename_eq_self, hmethod.option hinfo]

/-- A renaming has no name for a declaration, its fields, or what it refers to. -/
structure Renaming.Passes (ρ : Renaming) (d : Decl) : Prop where
  refs : ρ.Spares d.refs
  record : ρ.record? d.id = none
  fields : ∀ i, ρ.field? d.id i = none

namespace Decl

mutual

/-- Names for other declarations leave a declaration as it is. -/
theorem rename_eq_self : (d : Decl) → (∀ e ∈ d.walk, ρ.Passes e) → d.rename ρ = d
  | space head members, h => by
    rw [walk] at h
    rw [rename, renameAll_eq_self members fun e he => h e (List.mem_cons_of_mem _ he)]
  | record head info members methods, h => by
    rw [walk] at h
    obtain ⟨hself, h⟩ := List.forall_mem_cons.1 h
    obtain ⟨hmembers, hmethods⟩ := List.forall_mem_append.1 h
    have hhead : head.rename ρ = head := by
      unfold DeclHead.rename
      rw [show ρ.record? head.id = none from hself.record, Option.or_none]
    have hinfo : info.rename ρ head.id = info :=
      RecordInfo.rename_eq_self hself.refs hself.fields
    rw [rename, hhead, hinfo, renameAll_eq_self members hmembers,
      renameAll_eq_self methods hmethods]
  | enumeration head e, h => by
    have hself := (h _ (mem_walk_self _)).refs
    unfold rename Enumeration.rename
    rw [Ty.rename_eq_self _ hself]
  | function head f, h => by
    rw [rename, Function.rename_eq_self (h _ (mem_walk_self _)).refs]
  | typedef head underlying, h => by
    rw [rename, Ty.rename_eq_self underlying (h _ (mem_walk_self _)).refs]
  | var head v, h => by
    obtain ⟨hty, hinit⟩ := Renaming.spares_append.1 (h _ (mem_walk_self _)).refs
    unfold rename Variable.rename
    rw [Ty.rename_eq_self _ hty, Expr.map_rename_eq_self hinit]
  | macroDef _ _, _ => rfl

theorem renameAll_eq_self :
    (ds : List Decl) → (∀ e ∈ walkAll ds, ρ.Passes e) → renameAll ρ ds = ds
  | [], _ => rfl
  | d :: ds, h => by
    rw [walkAll] at h
    obtain ⟨hd, hds⟩ := List.forall_mem_append.1 h
    rw [renameAll, rename_eq_self d hd, renameAll_eq_self ds hds]

end

end Decl

theorem DeclIndex.rename_eq_self {index : DeclIndex}
    (h : ∀ d ∈ index.decls, ∀ e ∈ d.walk, ρ.Passes e) : index.rename ρ = index := by
  have hself := List.map_congr_left fun d hd => Decl.rename_eq_self d (h d hd)
  rw [List.map_id'] at hself
  exact congrArg DeclIndex.mk hself

end DBindings
