import DBindings.Emit.Module
import DBindings.Proofs.Renaming.Functions
import DBindings.Proofs.Renaming.Tables

/-!
# Writing a renamed unit

A unit and the unit with the names of its name table in place are written by the same steps, so the
text is the same, or the error.

* `EmitEnv.Renamed`             what the emitter is given for a unit and for a renamed one;
* `DeclIndex.isPolymorphic_rename`   records have the same shapes;
* `RecordDecl.emit_rename`      records are written alike;
* `Emit.drive_rename`           and so are all declarations;
* `TranslationUnit.emit_renamed`   a unit with its names in place is written as the unit is.
-/

set_option linter.unusedSectionVars false

namespace DBindings

variable {ρ : Renaming}

/-! ## Shapes -/

theorem Decl.isVirtualMethod_rename (d : Decl) :
    (d.rename ρ).isVirtualMethod = d.isVirtualMethod := by
  cases d with
  | function head f =>
    show (f.method.map (MethodInfo.rename ρ)).any _ = f.method.any _
    cases f.method <;> rfl
  | _ => rfl

namespace RecordDecl

theorem declaresVirtual_rename (r : RecordDecl) :
    (r.rename ρ).declaresVirtual = r.declaresVirtual := by
  show (Decl.renameAll ρ r.methods).any Decl.isVirtualMethod = r.methods.any Decl.isVirtualMethod
  rw [Decl.renameAll_eq_map, List.any_map]
  simp only [Function.comp_def, Decl.isVirtualMethod_rename]

theorem baseTypes_rename (r : RecordDecl) :
    (r.rename ρ).baseTypes = r.baseTypes.map (Ty.rename ρ) := by
  show (r.info.bases.map (BaseSpec.rename ρ)).map _ = (r.info.bases.map _).map _
  rw [List.map_map, List.map_map]
  rfl

end RecordDecl

namespace DeclIndex
variable (index : DeclIndex)

theorem search_seen {seen : List DeclId} {ty : Ty} {rest : List Ty} {ref : DeclRef}
    (hty : ty.record? = some ref) (hseen : seen.contains ref.id = true) :
    index.search seen (ty :: rest) = index.search seen rest := by
  rw [search, hty]
  exact dif_pos hseen

theorem search_unseen {seen : List DeclId} {ty : Ty} {rest : List Ty} {ref : DeclRef}
    (hty : ty.record? = some ref) (hseen : ¬seen.contains ref.id = true) :
    index.search seen (ty :: rest) = match index.record? ref.id with
      | none => index.search seen rest
      | some r => r.declaresVirtual || index.search (ref.id :: seen) (r.baseTypes ++ rest) := by
  rw [search, hty]
  refine (dif_neg hseen).trans ?_
  split
  · next hrecord => rw [hrecord]
  · next r hrecord => rw [hrecord]

theorem search_rename (seen : List DeclId) (work : List Ty) :
    (index.rename ρ).search seen (work.map (Ty.rename ρ)) = index.search seen work := by
  induction seen, work using search.induct index with
  | case1 seen => rw [List.map_nil, search, search]
  | case2 seen ty rest hty ih =>
    rw [List.map_cons, search, search, Ty.record?_rename, hty]
    exact ih
  | case3 seen ty rest ref hty hseen ih =>
    have hty' : (ty.rename ρ).record? = some (ref.rename ρ) := by rw [Ty.record?_rename, hty]; rfl
    rw [List.map_cons, search_seen _ hty hseen, search_seen _ hty' hseen, ih]
  | case4 seen ty rest ref hty hseen hrecord ih =>
    have hty' : (ty.rename ρ).record? = some (ref.rename ρ) := by rw [Ty.record?_rename, hty]; rfl
    rw [List.map_cons, search_unseen _ hty hseen, search_unseen _ hty' hseen, record?_rename]
    dsimp only [DeclRef.rename]
    rw [hrecord]
    exact ih
  | case5 seen ty rest ref hty hseen r hrecord ih =>
    have hty' : (ty.rename ρ).record? = some (ref.rename ρ) := by rw [Ty.record?_rename, hty]; rfl
    rw [List.map_cons, search_unseen _ hty hseen, search_unseen _ hty' hseen, record?_rename]
    dsimp only [DeclRef.rename]
    rw [hrecord]
    dsimp only [Option.map_some]
    rw [RecordDecl.declaresVirtual_rename, RecordDecl.baseTypes_rename, ← List.map_append, ih]

theorem isPolymorphic_rename (r : RecordDecl) :
    (index.rename ρ).isPolymorphic (r.rename ρ) = index.isPolymorphic r := by
  unfold isPolymorphic
  rw [RecordDecl.declaresVirtual_rename, RecordDecl.baseTypes_rename, search_rename]

theorem isInherited_rename (polymorphic : Bool) (base : Ty) :
    (index.rename ρ).isInherited polymorphic (base.rename ρ)
      = index.isInherited polymorphic base := by
  unfold isInherited
  rw [Ty.record?_rename]
  cases base.record? with
  | none => rfl
  | some ref =>
    dsimp only [Option.map_some, DeclRef.rename]
    rw [record?_rename]
    cases index.record? ref.id with
    | none => rfl
    | some r => exact isPolymorphic_rename index r

end DeclIndex

/-! ## Settings -/

/-- What the emitter is given for a unit and for a renamed one. -/
structure EmitEnv.Renamed (ρ : Renaming) (env env' : EmitEnv) : Prop extends
    EmitEnv.Alike ρ env env' where
  index : env'.index = env.index.rename ρ
  style : env'.style = env.style
  members : ∀ r : RecordDecl, r.toDecl ∈ env.index.decls → ∀ d ∈ r.members, d ∈ env.index.decls
  declName : ∀ d ∈ env.index.decls,
    env'.names.declName (d.rename ρ).head = env.names.declName d.head
  fieldName : ∀ r : RecordDecl, r.toDecl ∈ env.index.decls → ∀ i f, r.info.fields[i]? = some f →
    f.bitWidth = none → ∀ absent,
      (RecordDecl.givenName? (f.rename ρ r.head.id i)).getD
          ((env'.names.fieldName? r.head.id i).getD absent)
        = (RecordDecl.givenName? f).getD ((env.names.fieldName? r.head.id i).getD absent)

theorem EmitEnv.renamed_ofUnit {unit : TranslationUnit} (hids : (unit.walk.map Decl.id).Nodup)
    (options : EmitOptions) (style : NamespaceStyle) :
    (ofUnit unit options style).Renamed unit.givenNames (ofUnit unit.rename options style) where
  options := rfl
  agree := NameTable.agree_rename hids
  index := DeclIndex.ofUnit_renameBy _ unit
  style := rfl
  members _ hr _ hd := TranslationUnit.mem_walk_trans (Decl.mem_walk_members hd) hr
  declName _ hd := NameTable.declName_rename hids hd
  fieldName _ hr _ _ hf hwidth absent := NameTable.fieldName_rename hids hr hf hwidth absent

theorem Emit.forM_map {α : Type} {l : List α} {g : α → α} {f f' : α → Emit PUnit}
    (h : ∀ a ∈ l, f' (g a) = f a) : (l.map g).forM f' = l.forM f := by
  induction l with
  | nil => rfl
  | cons a l ih =>
    show (f' (g a) >>= fun _ => (l.map g).forM f') = f a >>= fun _ => l.forM f
    rw [h a List.mem_cons_self, ih fun b hb => h b (List.mem_cons_of_mem _ hb)]

theorem Emit.printed_rename (p : Printed) : Emit.printed (p.rename ρ) = Emit.printed p := by
  unfold Emit.printed
  rw [Printed.requests_rename, Printed.text_rename]

/-! ## Records -/

theorem RecordDecl.sizeLines_rename (r : RecordDecl) : (r.rename ρ).sizeLines = r.sizeLines := by
  unfold RecordDecl.sizeLines
  simp only [RecordDecl.isTemplated_rename]
  rfl

theorem RecordDecl.givenName?_rename {f : Field} {width : UInt32} (hwidth : f.bitWidth = some width)
    (record : DeclId) (position : Nat) :
    givenName? (f.rename ρ record position) = givenName? f := by
  have hname : (f.rename ρ record position).name = f.name := by
    rw [Field.rename, hwidth]
    exact if_pos (Bool.or_true _)
  unfold givenName?
  rw [hname]

section
variable {env env' : EmitEnv} (henv : env.Renamed ρ env')
include henv

theorem EmitEnv.Renamed.recordName {r : RecordDecl} (hr : r.toDecl ∈ env.index.decls) :
    env'.names.declName (r.rename ρ).head = env.names.declName r.head := henv.declName _ hr

theorem Enumeration.strokes_rename {head : DeclHead} {e : Enumeration}
    (h : Decl.enumeration head e ∈ env.index.decls) :
    (e.rename ρ).strokes env' head = e.strokes env head := by
  have hname : env'.names.declName head = env.names.declName head := henv.declName _ h
  have hint : env'.render (e.rename ρ).integerType = env.render e.integerType := henv.render _
  unfold Enumeration.strokes
  rw [hname, hint]
  rfl

theorem Emit.typedef_rename {record record' : RecordDecl → Emit PUnit}
    (hrecord : ∀ r : RecordDecl, r.toDecl ∈ env.index.decls → record' (r.rename ρ) = record r)
    (head : DeclHead) (underlying : Ty) (topLevel : Bool) :
    Emit.typedef env' record' head (underlying.rename ρ) topLevel
      = Emit.typedef env record head underlying topLevel := by
  have hlinkage := henv.functionLinkage head.context underlying
  have hty := henv.render underlying
  unfold Emit.typedef
  dsimp only
  rw [Ty.desugar_rename, henv.index, hlinkage, hty]
  cases underlying.desugar with
  | record ref =>
    dsimp only [Ty.rename, DeclRef.rename]
    rw [DeclIndex.record?_rename]
    cases hr : env.index.record? ref.id with
    | none => rfl
    | some r =>
      have hmem := DeclIndex.toDecl_mem hr
      dsimp only [Option.map_some]
      rw [hrecord r hmem, henv.recordName hmem]
  | _ => rfl

namespace RecordDecl
variable {r : RecordDecl}

theorem specializationArg_rename (arg : TemplateArg) :
    specializationArg env' (arg.rename ρ) = specializationArg env arg := by
  cases arg with
  | type ty => exact TemplateArg.render_rename henv.agree (.type ty)
  | integral _ _ _ => rfl
  | expression _ => rfl

theorem rename_templateList : (templateList env r).rename ρ = templateList env' (r.rename ρ) := by
  have htemplate : (r.rename ρ).info.template = r.info.template.map (RecordTemplate.rename ρ) := rfl
  unfold templateList
  rw [htemplate]
  cases r.info.template with
  | none => rfl
  | some template =>
    cases template with
    | described params =>
      dsimp only [Option.map_some, RecordTemplate.rename]
      rw [Printed.rename_append, Printed.rename_append, TemplateParam.rename_printAll henv.agree]
      rfl
    | specialization args =>
      dsimp only [Option.map_some, RecordTemplate.rename]
      rw [Printed.rename_append, Printed.rename_append, TemplateArg.renameAll_eq_map, List.map_map]
      simp only [Function.comp_def, specializationArg_rename henv]
      rfl

theorem inherited_rename (polymorphic : Bool) :
    inherited env' (r.rename ρ) polymorphic = inherited env r polymorphic := by
  have hcond : env'.index.isInherited polymorphic ∘ Ty.rename ρ
      = env.index.isInherited polymorphic := by
    rw [henv.index]
    exact funext fun base => DeclIndex.isInherited_rename env.index polymorphic base
  unfold inherited
  rw [baseTypes_rename, List.filter_map, hcond, List.map_map]
  exact List.map_congr_left fun ty _ => henv.render ty

theorem flattened_rename (polymorphic : Bool) :
    flattened env' (r.rename ρ) polymorphic = flattened env r polymorphic := by
  have hcond : (!env'.index.isInherited polymorphic ·) ∘ Ty.rename ρ
      = (!env.index.isInherited polymorphic ·) := by
    rw [henv.index]
    exact funext fun base => congrArg not (DeclIndex.isInherited_rename env.index polymorphic base)
  unfold flattened
  rw [baseTypes_rename, List.filter_map, hcond, List.map_map]
  exact List.map_congr_left fun ty _ => henv.render ty

theorem baseLines_rename (polymorphic : Bool) :
    baseLines env' (r.rename ρ) polymorphic = baseLines env r polymorphic := by
  unfold baseLines
  rw [flattened_rename henv]

theorem rename_header (hr : r.toDecl ∈ env.index.decls) (polymorphic : Bool) :
    (header env r polymorphic).rename ρ = header env' (r.rename ρ) polymorphic := by
  unfold header
  dsimp only
  rw [Printed.rename_append, Printed.rename_append, rename_templateList henv,
    inherited_rename henv, henv.recordName hr]
  rfl

theorem staticLine_rename (head : DeclHead) (v : Variable) :
    staticLine env' (r.rename ρ) head (v.rename ρ) = staticLine env r head v := by
  have hty : env'.render (v.rename ρ).ty = env.render v.ty := henv.render _
  unfold staticLine
  rw [hty]
  rfl

theorem rename_fieldLine (hr : r.toDecl ∈ env.index.decls) {i : Nat} {f : Field}
    (hf : r.info.fields[i]? = some f) (hwidth : f.bitWidth = none) :
    (fieldLine env r i f).rename ρ = fieldLine env' (r.rename ρ) i (f.rename ρ r.head.id i) := by
  have hty : env'.render (f.rename ρ r.head.id i).ty = env.render f.ty := henv.render _
  have hname := henv.fieldName r hr i f hf hwidth ("_field" ++ toString i)
  have hid : (r.rename ρ).head.id = r.head.id := rfl
  have hinit : (f.rename ρ r.head.id i).inClassInit = f.inClassInit.map (Expr.rename ρ) := rfl
  unfold fieldLine
  dsimp only
  rw [hid, hname, hty, hinit]
  cases f.inClassInit with
  | none => rfl
  | some init =>
    have hprint : (init.print env.print).rename ρ = (init.rename ρ).print env'.print :=
      @Expr.rename_print ρ env.print env'.names henv.agree init
    simp only [Option.map_some, Printed.rename_append, hprint]
    rfl

theorem emitFields_rename (hr : r.toDecl ∈ env.index.decls) (run : BitfieldRun) (position : Nat)
    (fields : List Field)
    (hfields : ∀ i f, fields[i]? = some f → r.info.fields[position + i]? = some f) :
    emitFields env' (r.rename ρ) run position (Field.renameFrom ρ r.head.id position fields)
      = emitFields env r run position fields := by
  induction fields generalizing run position with
  | nil => rfl
  | cons field rest ih =>
    have hrest : ∀ i f, rest[i]? = some f → r.info.fields[position + 1 + i]? = some f := by
      intro i f hf
      rw [show position + 1 + i = position + (i + 1) by omega]
      exact hfields (i + 1) f hf
    have hbits : (field.rename ρ r.head.id position).bitWidth = field.bitWidth := rfl
    have hty : env'.render (field.rename ρ r.head.id position).ty = env.render field.ty :=
      henv.render _
    rw [Field.renameFrom, emitFields, emitFields, hbits]
    cases hwidth : field.bitWidth with
    | some width =>
      dsimp only
      rw [hty, givenName?_rename hwidth]
      exact bind_congr fun _ => ih _ (position + 1) hrest
    | none =>
      have hfield : r.info.fields[position]? = some field := hfields 0 field rfl
      dsimp only
      rw [← rename_fieldLine henv hr hfield hwidth, Emit.printed_rename]
      exact bind_congr fun run => bind_congr fun text => bind_congr fun _ =>
        ih run (position + 1) hrest

section
variable {nested nested' : RecordDecl → Emit PUnit}
  (hnested : ∀ r : RecordDecl, r.toDecl ∈ env.index.decls → nested' (r.rename ρ) = nested r)
include hnested

theorem emitMember_rename (hr : r.toDecl ∈ env.index.decls) (polymorphic : Bool) {d : Decl}
    (hd : d ∈ env.index.decls) :
    emitMember env' nested' (r.rename ρ) polymorphic (d.rename ρ)
      = emitMember env nested r polymorphic d := by
  cases d with
  | enumeration head e =>
    rw [Decl.rename, emitMember, emitMember, Enumeration.strokes_rename henv hd]
  | record head info members methods => exact hnested ⟨head, info, members, methods⟩ hd
  | typedef head underlying =>
    rw [Decl.rename, emitMember, emitMember, Emit.typedef_rename henv hnested]
  | var head v => rw [Decl.rename, emitMember, emitMember, staticLine_rename henv]
  | function head f =>
    rw [Decl.rename, emitMember, emitMember, methodBlock_rename henv.toAlike (henv.recordName hr)]
  | space _ _ => rfl
  | macroDef _ _ => rfl

theorem emitInside_rename (hr : r.toDecl ∈ env.index.decls) (polymorphic : Bool) :
    emitInside env' nested' (r.rename ρ) polymorphic = emitInside env nested r polymorphic := by
  have hmembers : (r.rename ρ).members.forM (emitMember env' nested' (r.rename ρ) polymorphic)
      = r.members.forM (emitMember env nested r polymorphic) := by
    show (Decl.renameAll ρ r.members).forM _ = _
    rw [Decl.renameAll_eq_map]
    exact Emit.forM_map fun d hd =>
      emitMember_rename henv hnested hr polymorphic (henv.members r hr d hd)
  have hmethods : (r.rename ρ).methods.forM (emitMethod env' (r.rename ρ) polymorphic)
      = r.methods.forM (emitMethod env r polymorphic) := by
    show (Decl.renameAll ρ r.methods).forM _ = _
    rw [Decl.renameAll_eq_map]
    refine Emit.forM_map fun d _ => ?_
    cases d with
    | function head f =>
      rw [Decl.rename, emitMethod, emitMethod,
        methodBlock_rename henv.toAlike (henv.recordName hr)]
    | _ => rfl
  have hfields (run : BitfieldRun) : emitFields env' (r.rename ρ) run 0 (r.rename ρ).info.fields
      = emitFields env r run 0 r.info.fields :=
    emitFields_rename henv hr run 0 r.info.fields fun i f hf => by rwa [Nat.zero_add]
  unfold emitInside
  rw [baseLines_rename henv, hmembers, hmethods, hfields, henv.recordName hr]

theorem emitComplete_rename (hr : r.toDecl ∈ env.index.decls) :
    emitComplete env' nested' (r.rename ρ) = emitComplete env nested r := by
  have hpolymorphic : env'.index.isPolymorphic (r.rename ρ) = env.index.isPolymorphic r := by
    rw [henv.index]
    exact DeclIndex.isPolymorphic_rename env.index r
  unfold emitComplete
  dsimp only
  rw [hpolymorphic, sizeLines_rename, ← rename_header henv hr, Emit.printed_rename,
    emitInside_rename henv hnested hr]
  rfl

theorem emit_rename (hr : r.toDecl ∈ env.index.decls) (topLevel : Bool) :
    (r.rename ρ).emit env' nested' topLevel = r.emit env nested topLevel := by
  have hctx : (r.rename ρ).head.context = r.head.context := rfl
  have hcomplete : (r.rename ρ).info.complete = r.info.complete := rfl
  unfold emit
  dsimp only
  rw [hctx, hcomplete, emitComplete_rename henv hnested hr, henv.recordName hr, henv.style,
    henv.linkage]

end

end RecordDecl

namespace Emit

theorem nestedWithin_rename (depth : Nat) {r : RecordDecl} (hr : r.toDecl ∈ env.index.decls) :
    nestedWithin env' depth (r.rename ρ) = nestedWithin env depth r := by
  induction depth generalizing r with
  | zero => rfl
  | succ depth ih =>
    have hinfo : (r.rename ρ).info.complete = r.info.complete := rfl
    have hdependent : (r.rename ρ).info.dependent = r.info.dependent := rfl
    have hid : (r.rename ρ).head.id = r.head.id := rfl
    rw [nestedWithin, nestedWithin, hinfo, hdependent, hid,
      RecordDecl.emit_rename henv (fun r hr => ih hr) hr]

theorem nested_rename {r : RecordDecl} (hr : r.toDecl ∈ env.index.decls) :
    nested env' (r.rename ρ) = nested env r := by
  have hdepth : env'.index.decls.length = env.index.decls.length := by
    rw [henv.index]
    exact List.length_map ..
  rw [nested, nested, hdepth]
  exact nestedWithin_rename henv _ hr

/-! ## Modules -/

theorem accept_rename (head : DeclHead) : accept env' head = accept env head := by
  unfold accept
  rw [henv.isRelevant]

theorem enterRecord_rename {r : RecordDecl} (hr : r.toDecl ∈ env.index.decls) :
    enterRecord env' (r.rename ρ) = enterRecord env r := by
  have haccept : accept env' (r.rename ρ).head = accept env r.head := accept_rename henv r.head
  have hdependent : (r.rename ρ).info.dependent = r.info.dependent := rfl
  have hid : (r.rename ρ).head.id = r.head.id := rfl
  unfold enterRecord
  rw [haccept, hdependent, hid,
    RecordDecl.emit_rename henv (fun r hr => nested_rename henv hr) hr]

theorem rename_variableCode (head : DeclHead) (v : Variable) :
    (variableCode env head v).rename ρ = variableCode env' head (v.rename ρ) := by
  have hty : env'.render (v.rename ρ).ty = env.render v.ty := henv.render _
  have hlinkage : env'.functionLinkage head.context (v.rename ρ).ty
      = env.functionLinkage head.context v.ty := henv.functionLinkage _ _
  have hpointer : (v.rename ρ).ty.isPointer = v.ty.isPointer := Ty.isPointer_rename _
  have hinit : (v.rename ρ).init = v.init.map (Expr.rename ρ) := rfl
  have hstorage : (v.rename ρ).storage = v.storage := rfl
  unfold variableCode
  rw [hty, hlinkage, hpointer, hinit, hstorage]
  cases v.init with
  | none => rfl
  | some init =>
    have hprint : (init.print { env.print with pointerReturn := v.ty.isPointer }).rename ρ
        = (init.rename ρ).print { env'.print with pointerReturn := v.ty.isPointer } :=
      @Expr.rename_print ρ { env.print with pointerReturn := v.ty.isPointer } env'.names
        henv.agree init
    dsimp only [Option.map_some]
    rw [Expr.isNullPointerConstant_rename, ← hprint, Printed.rename_append, Printed.rename_append]
    cases v.ty.isPointer && init.isNullPointerConstant with
    | true => rfl
    | false => rfl

theorem function_rename (head : DeclHead) (f : Function) :
    function env' head (f.rename ρ) = function env head f := by
  unfold function
  dsimp only
  rw [Function.freeBlock_rename henv.toAlike, henv.style, henv.linkage]

mutual

theorem drive_rename : (d : Decl) → (∀ e ∈ d.walk, e ∈ env.index.decls) →
    (d.rename ρ).drive (handle env') = d.drive (handle env)
  | .space head members, h => by
    rw [Decl.walk] at h
    rw [Decl.rename, Decl.drive, Decl.drive,
      driveAll_rename members fun e he => h e (List.mem_cons_of_mem _ he)]
  | .record head info members methods, h => by
    have henter : enterRecord env' (RecordDecl.rename ρ ⟨head, info, members, methods⟩)
        = enterRecord env ⟨head, info, members, methods⟩ :=
      enterRecord_rename henv (h _ (Decl.mem_walk_self _))
    exact congrArg (fun enter : Emit PUnit => do enter; leaveRecord head.id) henter
  | .enumeration head e, h => by
    rw [Decl.rename, Decl.drive, Decl.drive, handle, handle, accept_rename henv,
      Enumeration.strokes_rename henv (h _ (Decl.mem_walk_self _))]
  | .function head f, _ => by
    rw [Decl.rename, Decl.drive, Decl.drive, handle, handle, accept_rename henv,
      function_rename henv]
  | .typedef head underlying, _ => by
    have hrecord (r : RecordDecl) (hr : r.toDecl ∈ env.index.decls) :
        (do enterRecord env' (r.rename ρ); leaveRecord (r.rename ρ).head.id)
          = (do enterRecord env r; leaveRecord r.head.id : Emit PUnit) :=
      congrArg (fun enter : Emit PUnit => do enter; leaveRecord r.head.id)
        (enterRecord_rename henv hr)
    rw [Decl.rename, Decl.drive, Decl.drive, handle, handle, accept_rename henv,
      typedef_rename henv hrecord]
  | .var head v, _ => by
    rw [Decl.rename, Decl.drive, Decl.drive, handle, handle, accept_rename henv, variable_,
      ← rename_variableCode henv, printed_rename]
    rfl
  | .macroDef head definition, _ => by
    rw [Decl.rename, Decl.drive, Decl.drive, handle, handle, henv.isRelevant]

theorem driveAll_rename : (ds : List Decl) → (∀ e ∈ Decl.walkAll ds, e ∈ env.index.decls) →
    Decl.driveAll (handle env') (Decl.renameAll ρ ds) = Decl.driveAll (handle env) ds
  | [], _ => rfl
  | d :: ds, h => by
    rw [Decl.walkAll] at h
    rw [Decl.renameAll, Decl.driveAll, Decl.driveAll,
      drive_rename d fun e he => h e (List.mem_append_left _ he),
      driveAll_rename ds fun e he => h e (List.mem_append_right _ he)]

end

end Emit

end

namespace TranslationUnit
variable {unit : TranslationUnit} (hids : (unit.walk.map Decl.id).Nodup)
include hids

/-- The same steps write a unit and the unit with its names in place. -/
theorem write_rename (options : EmitOptions) (s : EmitState) :
    unit.rename.write options s = unit.write options s := by
  have henv := EmitEnv.renamed_ofUnit hids options .strings
  have hdrive : unit.rename.drive (Emit.handle (.ofUnit unit.rename options .strings))
      = unit.drive (Emit.handle (.ofUnit unit options .strings)) := by
    refine Emit.forM_map fun file hfile => ?_
    have hdecls := Emit.driveAll_rename henv file.decls fun d hd => mem_walk.2 ⟨file, hfile, hd⟩
    exact congrArg (fun decls : Emit PUnit => do
      Emit.handle (.ofUnit unit options .strings) (.beginFile file.path)
      decls
      Emit.handle (.ofUnit unit options .strings) (.endFile file.path)) hdecls
  unfold write
  rw [hdrive]

/-- A unit with the names of its name table in place is written as the unit is: as the same text, or
with the same error. -/
theorem emit_renamed (options : EmitOptions) : unit.rename.emit options = unit.emit options := by
  unfold emit
  rw [write_rename hids]

end TranslationUnit

/-- A struct with a union that has no name, in a field that has none. -/
def valueUnit : TranslationUnit :=
  ⟨[⟨"value.h", [
    .record { id := 1, name := some "Value" }
      { tag := .struct, fields := [{ ty := .record ⟨2, ""⟩ }] }
      [.record { id := 2 } { tag := .union, fields := [{ name := some "whole", ty := .int }] } []
        []] []]⟩]⟩

/-- The union and the field get names in the renamed unit. -/
theorem valueUnit_emit_renamed :
    valueUnit.rename.walk.map (·.head.name) = [some "Value", some "_anon1"] ∧
    valueUnit.rename.visited.map (·.info.fields.map (·.name)) = [[some "a1_"], [some "whole"]] ∧
    valueUnit.rename.emit {} = valueUnit.emit {} :=
  ⟨by decide +kernel, by decide +kernel, TranslationUnit.emit_renamed (by decide) {}⟩

end DBindings
