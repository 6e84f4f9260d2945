import DBindings.Proofs.Declared.Fields
import DBindings.Proofs.Declared.Functions
import DBindings.Proofs.Document.Aliases
import DBindings.Proofs.Shape.Bases

/-!
# Names in a module

* `RecordDecl.Declares`       what a record declares, beside the entries inside it;
* `Entry.Declares`            what an entry declares, beside the entries inside it;
* `Entry.Declares.written`    the code of the entry has it.
-/

namespace DBindings
open Printed (text_append text_ofText)

namespace RecordDecl

/-- The word in front of the name of a record. -/
def nameFront (env : EmitEnv) (r : RecordDecl) : String :=
  (if r.info.complete then
    (RecordShape.choose r.info.tag (env.index.isPolymorphic r)).keyword else "struct") ++ " "

/-- What a record declares: its name, and if it is complete its template parameters, its fields and
what its methods declare. -/
inductive Declares (env : EmitEnv) (r : RecordDecl) : Declarator → Prop where
  | name : Declares env r ⟨.record, env.names.declName r.head, r.nameFront env⟩
  | templateParam {ps : List TemplateParam} {p : TemplateParam} : r.info.complete = true →
    r.info.template = some (.described ps) → p ∈ ps → Declares env r (p.declarator env.names)
  | field {d : Declarator} : r.info.complete = true → r.FieldDeclares env d → Declares env r d
  | method {head : DeclHead} {f : Function} {d : Declarator} : r.info.complete = true →
    .function head f ∈ r.methods → r.MethodDeclares env (env.index.isPolymorphic r) head f d →
    Declares env r d

variable {env : EmitEnv} {r : RecordDecl} {topLevel asked : Bool} {d : Declarator}

theorem mem_frontCode (h : r.info.complete = true) (topLevel : Bool) :
    .line (r.headerText env) ∈ r.frontCode env topLevel := by
  unfold frontCode
  rw [if_pos h]
  exact List.mem_append_right _ (List.mem_append_left _ (List.mem_append_right _
    List.mem_cons_self))

theorem openStart_baseClause (tys : List Ty) : Text.OpenStart (env.baseClause tys) := by
  unfold EmitEnv.baseClause
  split
  · exact (by decide : Text.OpenStart "")
  · exact (Text.Stops.append ⟨by decide, by decide⟩ _).start

theorem openStart_templateList : Text.OpenStart (templateList env r).text := by
  unfold templateList
  split
  · exact (Text.stops_parens _).start
  · exact (Text.stops_parens _).start
  · exact (by decide : Text.OpenStart "")

theorem written_record_name (topLevel : Bool) :
    (⟨.record, env.names.declName r.head, r.nameFront env⟩ : Declarator).WrittenIn
      (r.frontCode env topLevel) := by
  have hend : Text.OpenEnd (r.nameFront env) := Text.openEnd_blank _
  by_cases h : r.info.complete = true
  · have hstands : (⟨.record, env.names.declName r.head, r.nameFront env⟩ : Declarator).StandsIn
        (r.headerText env) := by
      have hrest : Text.OpenStart ((templateList env r).text ++ env.baseClause
          (r.baseTypes.filter (env.index.isInherited (env.index.isPolymorphic r)))) :=
        openStart_templateList.append (openStart_baseClause _)
      refine .start _ hend hrest ?_
      show _ = r.nameFront env ++ env.names.declName r.head ++ _
      unfold nameFront
      rw [if_pos h, headerText_eq, String.append_assoc]
    exact hstands.written Declarator.Kind.noConfusion (mem_frontCode h topLevel)
  · have hstands : (⟨.record, env.names.declName r.head, r.nameFront env⟩ : Declarator).StandsIn
        ("struct " ++ env.names.declName r.head ++ ";") := by
      refine .start _ hend (by decide : Text.OpenStart ";") ?_
      show _ = r.nameFront env ++ env.names.declName r.head ++ _
      unfold nameFront
      rw [if_neg h]
      rfl
    refine hstands.written Declarator.Kind.noConfusion ?_
    unfold frontCode
    rw [if_neg h]
    exact List.mem_append_right _ List.mem_cons_self

theorem written_templateParam (h : r.info.complete = true) {ps : List TemplateParam}
    {p : TemplateParam} (hps : r.info.template = some (.described ps)) (hp : p ∈ ps)
    (topLevel : Bool) : (p.declarator env.names).WrittenIn (r.frontCode env topLevel) := by
  have hlist := (TemplateParam.standsIn_printAll env.names hp).parens
    ((RecordShape.choose r.info.tag (env.index.isPolymorphic r)).keyword ++ " " ++
      env.names.declName r.head)
    (env.baseClause (r.baseTypes.filter (env.index.isInherited (env.index.isPolymorphic r))))
  have hstands : (p.declarator env.names).StandsIn (r.headerText env) := by
    rw [headerText_eq]
    unfold templateList
    rw [hps]
    simp only [text_append, text_ofText, String.append_assoc] at hlist ⊢
    exact hlist
  exact hstands.written Declarator.Kind.noConfusion (mem_frontCode h topLevel)

/-- What stands between the members and the closing brace of a complete record. -/
theorem infix_backCode (h : r.info.complete = true) (topLevel asked : Bool) :
    r.fieldsCode env { record := env.names.declName r.head } 0 r.info.fields <:+:
        r.backCode env topLevel asked ∧
      r.methods.flatMap (Decl.methodCode env r) <:+: r.backCode env topLevel asked := by
  unfold backCode
  rw [if_pos h, List.append_assoc, List.append_assoc, List.append_assoc]
  exact ⟨(List.prefix_append _ _).isInfix,
    (List.prefix_append _ _).isInfix.trans (List.suffix_append _ _).isInfix⟩

theorem written_field (hn : env.names.NamesFields) (hcomplete : r.info.complete = true)
    (hfit : Field.Fit r.info.fields) (h : r.FieldDeclares env d) (topLevel asked : Bool) :
    d.WrittenIn (r.backCode env topLevel asked) := by
  obtain ⟨-, hfields⟩ := written_fieldsCode env r
    { record := env.names.declName r.head } 0 r.info.fields (fun _ => rfl)
    (Field.overflow?_eq_none_iff.2 hfit)
  refine (h.written hn fun k field hk => ?_).within (infix_backCode hcomplete topLevel asked).1
  have hfield := hfields k field hk
  rwa [Nat.zero_add] at hfield

theorem written_method (hcomplete : r.info.complete = true) {head : DeclHead} {f : Function}
    (hmem : .function head f ∈ r.methods)
    (h : r.MethodDeclares env (env.index.isPolymorphic r) head f d) (topLevel asked : Bool) :
    d.WrittenIn (r.backCode env topLevel asked) := by
  have hcode : (r.methodBlock env (env.index.isPolymorphic r) head f).lines.map .line <:+:
      r.methods.flatMap (Decl.methodCode env r) := by
    obtain ⟨before, after, hmethods⟩ := List.append_of_mem hmem
    rw [hmethods, List.flatMap_append, List.flatMap_cons, ← List.append_assoc]
    exact List.infix_append _ _ _
  exact (written_methodBlock h).within (hcode.trans (infix_backCode hcomplete topLevel asked).2)

theorem Declares.written {scope : Option RecordDecl} (hn : env.names.NamesFields)
    (hadmitted : r.Admitted env scope) (h : r.Declares env d) (topLevel asked : Bool) :
    d.WrittenIn (r.frontCode env topLevel) ∨ d.WrittenIn (r.backCode env topLevel asked) := by
  cases h with
  | name => exact Or.inl (written_record_name topLevel)
  | templateParam hcomplete hps hp => exact Or.inl (written_templateParam hcomplete hps hp topLevel)
  | field hcomplete h =>
    exact Or.inr (written_field hn hcomplete (hadmitted.fit hcomplete) h topLevel asked)
  | method hcomplete hmem h => exact Or.inr (written_method hcomplete hmem h topLevel asked)

def staticDeclarator (env : EmitEnv) (r : RecordDecl) (head : DeclHead) (v : Variable) :
    Declarator :=
  ⟨.staticMember, head.name.getD "",
    "static " ++ head.access.keyword r.info.tag ++ " " ++ env.render v.ty ++ " "⟩

theorem standsIn_staticLine (head : DeclHead) (v : Variable) :
    (r.staticDeclarator env head v).StandsIn (r.staticLine env head v) :=
  .start ";" (Text.openEnd_blank _) (by decide) rfl

end RecordDecl

def Variable.declarator (env : EmitEnv) (head : DeclHead) (v : Variable) : Declarator :=
  ⟨.variable, head.name.getD "", env.functionLinkage head.context v.ty ++
    (match v.storage with
    | .external => "extern "
    | .static => "__gshared static "
    | .none => "") ++ env.render v.ty ++ " "⟩

theorem Variable.standsIn_variableCode (env : EmitEnv) (head : DeclHead) (v : Variable) :
    (v.declarator env head).StandsIn (Emit.variableCode env head v).text := by
  have hdeclared {text : String} (after : String) (hafter : Text.OpenStart after)
      (htext : text = (v.declarator env head).front ++ Identifier.sanitize (head.name.getD "") ++
        after) : (v.declarator env head).StandsIn text :=
    .start after (Text.openEnd_blank _) hafter htext
  unfold Emit.variableCode
  cases v.init with
  | none =>
    refine hdeclared ";" (by decide) ?_
    simp only [text_append, text_ofText, String.append_empty]
    rfl
  | some init =>
    dsimp only
    by_cases hnull : (v.ty.isPointer && init.isNullPointerConstant) = true
    · rw [if_pos hnull]
      refine hdeclared (" = null" ++ ";") (by decide) ?_
      simp only [text_append, text_ofText]
      exact String.append_assoc
    · rw [if_neg hnull]
      have hvalue : Text.Stops " = " := ⟨by decide, by decide⟩
      refine hdeclared _ (hvalue.append ((init.print
        { env.print with pointerReturn := v.ty.isPointer }).text ++ ";")).start ?_
      unfold declarator
      cases v.storage <;> simp only [text_append, text_ofText, String.append_assoc]

namespace Enumeration
variable {env : EmitEnv} {head : DeclHead} {e : Enumeration}

theorem written_name (hname : env.names.declName head ≠ "") :
    (⟨.enumeration, env.names.declName head, "alias "⟩ : Declarator).WrittenIn
      (e.strokes env head) := by
  have hrest : Text.Stops " = " := ⟨by decide, by decide⟩
  have hstands : (⟨.enumeration, env.names.declName head, "alias "⟩ : Declarator).StandsIn
      ("alias " ++ env.names.declName head ++ " = " ++ env.render e.integerType ++ ";") := by
    refine .start _ (by decide : Text.OpenEnd "alias ")
      (hrest.append (env.render e.integerType ++ ";")).start ?_
    show _ = "alias " ++ env.names.declName head ++ _
    simp only [String.append_assoc]
  refine hstands.written Declarator.Kind.noConfusion ?_
  unfold strokes
  dsimp only
  rw [if_neg hname]
  exact List.mem_append_left _ (List.mem_append_left _ (List.mem_append_left _ List.mem_cons_self))

theorem written_enumerator {x : Enumerator} (hx : x ∈ e.enumerators) :
    (⟨.enumerator, x.name, ""⟩ : Declarator).WrittenIn (e.strokes env head) := by
  have hrest : Text.Stops " = " := ⟨by decide, by decide⟩
  have hstands : (⟨.enumerator, x.name, ""⟩ : Declarator).StandsIn (Identifier.sanitize x.name ++
      " = " ++ toString x.value ++ if 1 < e.enumerators.length then "," else "") := by
    refine .start _ (by decide : Text.OpenEnd "") (hrest.append (toString x.value ++
      if 1 < e.enumerators.length then "," else "")).start ?_
    show _ = "" ++ Identifier.sanitize x.name ++ _
    simp only [String.append_assoc, String.empty_append]
  refine hstands.written Declarator.Kind.noConfusion ?_
  exact List.mem_append_left _ (List.mem_append_right _ (List.mem_map.2 ⟨x, hx, rfl⟩))

end Enumeration

theorem Alias.standsIn_text (a : Alias) :
    (⟨.typedef, a.name, "alias "⟩ : Declarator).StandsIn a.text := by
  have hrest : Text.Stops " = " := ⟨by decide, by decide⟩
  refine .start _ (by decide : Text.OpenEnd "alias ")
    (hrest.append (a.linkage ++ a.target ++ ";")).start ?_
  show _ = "alias " ++ a.name ++ _
  unfold text
  simp only [String.append_assoc]

theorem Function.lines_infix_leafCode {env : EmitEnv} {head : DeclHead} {f : Function}
    (h : (Decl.function head f).isNamedOperator = false) :
    (f.freeBlock env (head.name.getD "")).lines.map .line <:+:
      (Decl.function head f).leafCode env := by
  unfold Decl.isNamedOperator at h
  unfold Decl.leafCode
  dsimp only at h ⊢
  rw [h, if_neg Bool.false_ne_true, List.append_assoc]
  exact List.infix_append _ _ _

namespace Entry

/-- What an entry declares, beside the entries inside it. -/
inductive Declares (env : EmitEnv) (scope : Option RecordDecl) : Entry → Declarator → Prop where
  | enumeration {head : DeclHead} {e : Enumeration} : env.names.declName head ≠ "" →
    Declares env scope (.leaf (.enumeration head e))
      ⟨.enumeration, env.names.declName head, "alias "⟩
  | enumerator {head : DeclHead} {e : Enumeration} {x : Enumerator} : x ∈ e.enumerators →
    Declares env scope (.leaf (.enumeration head e)) ⟨.enumerator, x.name, ""⟩
  | function {head : DeclHead} {f : Function} : (Decl.function head f).isNamedOperator = false →
    Declares env scope (.leaf (.function head f)) (f.declarator env (head.name.getD ""))
  | inside {head : DeclHead} {f : Function} {d : Declarator} :
    (Decl.function head f).isNamedOperator = false → f.Declares env.names f.inlineBody? d →
    Declares env scope (.leaf (.function head f)) d
  | global {head : DeclHead} {v : Variable} :
    Declares env scope (.leaf (.var head v)) (v.declarator env head)
  | staticMember {r : RecordDecl} {head : DeclHead} {v : Variable} : scope = some r →
    Declares env scope (.member (.var head v)) (r.staticDeclarator env head v)
  | method {r : RecordDecl} {head : DeclHead} {f : Function} {d : Declarator} : scope = some r →
    r.MethodDeclares env (env.index.isPolymorphic r) head f d →
    Declares env scope (.member (.function head f)) d
  | typedef {head : DeclHead} {underlying : Ty} {target : List Entry} {a : Alias} :
    env.alias? head underlying = some a →
    Declares env scope (.typedef head underlying target) ⟨.typedef, a.name, "alias "⟩
  | record {r : RecordDecl} {asked : Bool} {members : List Entry} {d : Declarator} :
    r.Declares env d → Declares env scope (.record r asked members) d

variable {env : EmitEnv} {scope : Option RecordDecl}

/-- An entry that may stand in a scope has what it declares in its code. -/
theorem Declares.written {e : Entry} {d : Declarator} (h : e.Declares env scope d)
    (hn : env.names.NamesFields) (hfits : e.Fits env scope) :
    d.WrittenIn (e.addition env scope).code := by
  cases h with
  | enumeration hname => exact Enumeration.written_name hname
  | enumerator hx => exact Enumeration.written_enumerator hx
  | function hname => exact Function.written_name.within (Function.lines_infix_leafCode hname)
  | inside hname h =>
    exact (Function.written_inside h).within (Function.lines_infix_leafCode hname)
  | @global head v =>
    exact (v.standsIn_variableCode env head).written Declarator.Kind.noConfusion List.mem_cons_self
  | @staticMember r head v hscope =>
    subst hscope
    exact (RecordDecl.standsIn_staticLine head v).written Declarator.Kind.noConfusion
      List.mem_cons_self
  | method hscope h =>
    subst hscope
    exact RecordDecl.written_methodBlock h
  | @typedef head underlying target a ha =>
    obtain ⟨n, hcode⟩ := code_typedef env scope head underlying target
    rw [hcode, ha]
    exact a.standsIn_text.written Declarator.Kind.noConfusion
      (List.mem_append_left _ (List.mem_append_right _ List.mem_cons_self))
  | @record r asked members _ h =>
    have hcode : ((Entry.record r asked members).addition env scope).code =
        r.frontCode env scope.isNone ++ (additionAll env (some r) members).code ++
          r.backCode env scope.isNone asked := rfl
    rw [hcode]
    rcases h.written hn hfits.1 scope.isNone asked with hfront | hback
    · rw [List.append_assoc]
      exact hfront.within (List.prefix_append _ _).isInfix
    · exact hback.within (List.suffix_append _ _).isInfix

end Entry

end DBindings
