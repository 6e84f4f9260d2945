import DBindings.Emit.Module
import DBindings.Proofs.Declared.Locals

/-!
# Names in functions

The parameters and template parameters of a function stand in its signature.

* `Function.Declares`                 what a function declares inside itself;
* `Function.written_name`, `Function.written_inside`   a function outside records;
* `RecordDecl.MethodDeclares`         what a method declares: its own name, and this;
* `RecordDecl.written_methodBlock`    it is in the lines of the method.
-/

namespace DBindings
open Printed (text_append text_ofText)

/-! ## Parameters -/

def Param.declarator? (names : NameTable) (p : Param) : Option Declarator :=
  match p.name with
  | some name => if name = "" then none else some ⟨.param, name, p.ty.render names ++ " "⟩
  | none => none

theorem Param.standsIn_print {names : NameTable} {p : Param} {d : Declarator}
    (h : p.declarator? names = some d) : d.StandsIn (p.print names).text := by
  unfold declarator? at h
  split at h
  · next name hname =>
    split at h
    · exact nomatch h
    · next hnonempty =>
      have hfront : d.front ++ d.identifier =
          p.ty.render names ++ (" " ++ Identifier.sanitize name) := by
        rw [← Option.some.inj h, ← String.append_assoc]
        rfl
      have hstart {text : String} (after : String) (hafter : Text.OpenStart after)
          (htext : text = p.ty.render names ++ (" " ++ Identifier.sanitize name) ++ after) :
          d.StandsIn text :=
        .start after (by rw [← Option.some.inj h]; exact Text.openEnd_blank _) hafter
          (by rw [htext, hfront])
      unfold print
      rw [hname]
      dsimp only
      rw [if_neg hnonempty]
      split
      · exact hstart "" (by decide) (by rw [text_ofText, String.append_empty])
      · next value _ =>
        split
        · exact hstart " = null" (by decide) (by rw [text_append, text_ofText, text_ofText])
        · split
          · refine hstart (" = " ++ ((value.print { names }).byRef names value (some p.ty)).text)
              (.before _ (by decide) (by decide)) ?_
            rw [text_append, text_append, text_ofText, text_ofText, String.append_assoc]
          · refine hstart (" = " ++ (value.print { names }).text)
              (.before _ (by decide) (by decide)) ?_
            rw [text_append, text_append, text_ofText, text_ofText, String.append_assoc]
  · exact nomatch h

theorem Param.kind_declarator {names : NameTable} {p : Param} {d : Declarator}
    (h : p.declarator? names = some d) : d.kind = .param := by
  unfold declarator? at h
  split at h
  · split at h
    · exact nomatch h
    · rw [← Option.some.inj h]
  · exact nomatch h

/-- The name of a template parameter, which stands behind the type of a value. -/
def TemplateParam.declarator (names : NameTable) (p : TemplateParam) : Declarator :=
  ⟨.templateParam, p.name, p.nonType.elim "" fun ty => ty.render names ++ " "⟩

theorem TemplateParam.standsIn_print (names : NameTable) (p : TemplateParam) :
    (p.declarator names).StandsIn (p.print names).text := by
  unfold print declarator
  cases p.nonType with
  | none =>
    refine .start _ (by decide : Text.OpenEnd "") (by decide : Text.OpenStart "") ?_
    rw [text_ofText, String.append_empty]
    exact String.empty_append.symm
  | some ty =>
    have hend := Text.openEnd_blank (ty.render names)
    dsimp only [Option.elim_some]
    split
    · refine .start _ hend (by decide : Text.OpenStart "") ?_
      rw [text_ofText, String.append_empty]
      rfl
    · next value _ =>
      refine .start (" = " ++ (value.print { names }).text) hend
        (.before _ (by decide) (by decide)) ?_
      rw [text_append, text_append, text_ofText, text_ofText, String.append_assoc]
      rfl

theorem TemplateParam.standsIn_printAll (names : NameTable) {ps : List TemplateParam}
    {p : TemplateParam} (hp : p ∈ ps) :
    (p.declarator names).StandsIn (printAll names ps).text :=
  (p.standsIn_print names).joined (List.mem_map.2 ⟨p, hp, rfl⟩)

/-! ## Functions -/

namespace Function

/-- What a function declares inside itself if it is written with such a body. -/
inductive Declares (names : NameTable) (f : Function) (body : Option Stmt) : Declarator → Prop where
  | param {p : Param} {d : Declarator} :
    p ∈ f.params → p.declarator? names = some d → Declares names f body d
  | templateParam {ps : List TemplateParam} {p : TemplateParam} :
    f.templateParams = some ps → p ∈ ps → Declares names f body (p.declarator names)
  | localVar {s : Stmt} {v : LocalVar} :
    body = some s → s.Declares v → Declares names f body (v.declarator names)

/-- It is written if the signature has the parameter list and the template parameters. -/
theorem Declares.written (cx : PrintContext) {f : Function} {body : Option Stmt} {d : Declarator}
    {signature : String} (h : f.Declares cx.names body d)
    (hparams : ∀ d : Declarator, d.StandsIn (f.printParams cx.names).text → d.StandsIn signature)
    (htemplate : ∀ (ps : List TemplateParam) (d : Declarator), f.templateParams = some ps →
      d.StandsIn (TemplateParam.printAll cx.names ps).text → d.StandsIn signature)
    (initializers : List String) (commentOut : Bool) :
    d.WrittenIn ((definition cx signature body initializers commentOut).lines.map .line) := by
  cases h with
  | @param p _ hp hd =>
    have hstands : d.StandsIn (f.printParams cx.names).text := (p.standsIn_print hd).joined
      (List.mem_append_left _ (List.mem_map.2 ⟨p, hp, rfl⟩))
    have hkind : d.kind ≠ .localVar := by
      rw [Param.kind_declarator hd]
      exact Declarator.Kind.noConfusion
    exact written_signature (hparams d hstands) hkind
  | @templateParam ps p hps hp =>
    exact written_signature (htemplate ps _ hps (TemplateParam.standsIn_printAll cx.names hp))
      Declarator.Kind.noConfusion
  | localVar hbody hs =>
    subst hbody
    exact written_body hs

def declarator (env : EmitEnv) (name : String) (f : Function) : Declarator :=
  ⟨.function, name, env.render f.returnType ++ " "⟩

section
variable {env : EmitEnv} {name : String} {f : Function}

theorem text_freeSignature : (f.freeSignature env name).text =
    env.render f.returnType ++ " " ++ Identifier.sanitize name ++ (f.templateList env.names).text ++
      "(" ++ (f.printParams env.names).text ++ ")" ++ env.functionSuffix := by
  unfold freeSignature
  simp only [text_append, text_ofText, String.append_assoc]

theorem written_name :
    (f.declarator env name).WrittenIn ((f.freeBlock env name).lines.map .line) := by
  refine written_signature (.start ((f.templateList env.names).text ++ ("(" ++
    ((f.printParams env.names).text ++ (")" ++ env.functionSuffix)))) (Text.openEnd_blank _) ?_ ?_)
    Declarator.Kind.noConfusion
  · refine Text.OpenStart.append ?_ (Text.Stops.append ⟨by decide, by decide⟩ _).start
    unfold templateList
    split
    · exact (Text.stops_parens _).start
    · exact (by decide : Text.OpenStart "")
  · show _ = env.render f.returnType ++ " " ++ Identifier.sanitize name ++ _
    rw [text_freeSignature]
    simp only [String.append_assoc]

/-- It is written with what it declares inside itself. -/
theorem written_inside {d : Declarator} (h : f.Declares env.names f.inlineBody? d) :
    d.WrittenIn ((f.freeBlock env name).lines.map .line) := by
  refine Declares.written { env.print with pointerReturn := f.returnType.isPointer } h
    (fun d hd => ?_) (fun ps d hps hd => ?_) [] false
  · rw [text_freeSignature]
    exact hd.parens _ _
  · have hlist := hd.parens (env.render f.returnType ++ " " ++ Identifier.sanitize name)
      ("(" ++ ((f.printParams env.names).text ++ (")" ++ env.functionSuffix)))
    rw [text_freeSignature]
    unfold templateList
    rw [hps]
    simp only [text_append, text_ofText, String.append_assoc] at hlist ⊢
    exact hlist

end

/-- The name that a method is declared with, unless it is an operator or a conversion. -/
def memberName? (f : Function) (name : String) : Option String :=
  match f.method with
  | none => some name
  | some info =>
    match info.role with
    | .constructor _ _ => some "this"
    | .destructor => some "~this"
    | .conversion _ => none
    | .normal => if info.operator.isSome then none else some name

theorem classify_of_memberName {f : Function} {name declared : String}
    (h : f.memberName? name = some declared) (names : NameTable) (record : DeclId) :
    f.classify names name record = some (.plain (Identifier.sanitize declared)) := by
  revert h
  unfold memberName? classify
  cases f.method with
  | none =>
    rintro ⟨⟩
    rfl
  | some info =>
    dsimp only
    cases info.role with
    | constructor _ _ =>
      rintro ⟨⟩
      rfl
    | destructor =>
      rintro ⟨⟩
      rfl
    | conversion _ => exact fun h => nomatch h
    | normal =>
      cases info.operator with
      | some _ => exact fun h => nomatch h
      | none =>
        rintro ⟨⟩
        rfl

end Function

/-! ## Methods -/

namespace RecordDecl

/-- A method that the compiler adds by itself is left out. -/
def omits (f : Function) : Bool :=
  let info := f.method.getD {}
  info.isDefaulted && !info.isExplicitlyDefaulted

def methodFront (env : EmitEnv) (r : RecordDecl) (polymorphic : Bool) (head : DeclHead)
    (f : Function) : String :=
  let info := f.method.getD {}
  (if info.isDefaulted then "// (default) "
    else if info.isCommentedOut f polymorphic then "// " else "") ++
    info.attributes f head.access r.info.tag ++
    if info.isCtor || info.isDtor then "" else env.render f.returnType ++ " "

def methodBody? (f : Function) : Option Stmt :=
  if (f.method.getD {}).isDtor then none else f.inlineBody?

/-- A method declares its own name, and what is inside it. -/
inductive MethodDeclares (env : EmitEnv) (r : RecordDecl) (polymorphic : Bool) (head : DeclHead)
    (f : Function) : Declarator → Prop where
  | name {declared : String} : omits f = false →
    f.memberName? (head.name.getD "") = some declared →
    MethodDeclares env r polymorphic head f
      ⟨.method, declared, r.methodFront env polymorphic head f⟩
  | inside {d : Declarator} : omits f = false →
    (f.classify env.names (head.name.getD "") r.head.id).isSome = true →
    f.Declares env.names (methodBody? f) d → MethodDeclares env r polymorphic head f d

variable {env : EmitEnv} {r : RecordDecl} {polymorphic : Bool} {head : DeclHead} {f : Function}

theorem openEnd_attributes (info : MethodInfo) (f : Function) (access : Access) (tag : RecordTag) :
    Text.OpenEnd (info.attributes f access tag) := by
  have hif {c : Prop} [Decidable c] {a b : String} (ha : Text.OpenEnd a) (hb : Text.OpenEnd b) :
      Text.OpenEnd (if c then a else b) := by
    split
    · exact ha
    · exact hb
  unfold MethodInfo.attributes
  exact (((((Text.openEnd_blank _).append (hif (by decide) (by decide))).append
    (hif (by decide) (by decide))).append (hif (by decide) (by decide))).append
    (hif (by decide) (by decide))).append (hif (by decide) (by decide))

theorem openEnd_methodFront : Text.OpenEnd (r.methodFront env polymorphic head f) := by
  unfold methodFront
  refine ((?_ : Text.OpenEnd _).append (openEnd_attributes _ f _ _)).append ?_
  · split
    · exact (by decide : Text.OpenEnd "// (default) ")
    · split
      · exact (by decide : Text.OpenEnd "// ")
      · exact (by decide : Text.OpenEnd "")
  · split
    · exact (by decide : Text.OpenEnd "")
    · exact Text.openEnd_blank _

/-- The signature has the name of the method behind its front, and its parameters in parentheses. -/
theorem text_signature (env : EmitEnv) (r : RecordDecl) (polymorphic : Bool) (head : DeclHead)
    (f : Function) (cls : MethodClass) :
    ∃ after, (signature env r head f (f.method.getD {}) cls
      ((f.method.getD {}).isCommentedOut f polymorphic)).text =
        r.methodFront env polymorphic head f ++ cls.name ++ (compileTimeList env f cls).text ++
          "(" ++ (f.printParams env.names).text ++ ")" ++ after := by
  refine ⟨(if (f.method.getD {}).isConst then " const" else "") ++ env.functionSuffix, ?_⟩
  unfold signature methodFront
  simp only [text_append, text_ofText, String.append_assoc]

theorem openStart_compileTimeList (cls : MethodClass) :
    Text.OpenStart (compileTimeList env f cls).text := by
  unfold compileTimeList
  dsimp only
  split
  · exact (by decide : Text.OpenStart "")
  · exact (Text.stops_parens _).start

/-- The lines of a method that is not left out end with its definition. -/
theorem lines_methodBlock (polymorphic : Bool) (homits : omits f = false) {cls : MethodClass}
    (hcls : f.classify env.names (head.name.getD "") r.head.id = some cls) :
    ∃ inits, (definition { env.print with polymorphic, pointerReturn := f.returnType.isPointer }
        (signature env r head f (f.method.getD {}) cls
          ((f.method.getD {}).isCommentedOut f polymorphic)).text (methodBody? f) inits
        ((f.method.getD {}).isCommentedOut f polymorphic)).lines <:+:
      (r.methodBlock env polymorphic head f).lines := by
  unfold omits at homits
  unfold methodBlock
  dsimp only at homits ⊢
  rw [homits, if_neg Bool.false_ne_true, hcls]
  exact ⟨_, (List.suffix_append _ _).isInfix⟩

/-- A method is written with its name and with what it declares inside itself. -/
theorem written_methodBlock {d : Declarator} (h : r.MethodDeclares env polymorphic head f d) :
    d.WrittenIn ((r.methodBlock env polymorphic head f).lines.map .line) := by
  cases h with
  | @name declared homits hname =>
    have hcls := Function.classify_of_memberName hname env.names r.head.id
    obtain ⟨inits, hlines⟩ := lines_methodBlock polymorphic homits hcls
    refine (written_signature ?_ Declarator.Kind.noConfusion).within (hlines.map Stroke.line)
    let cls := MethodClass.plain (Identifier.sanitize declared)
    obtain ⟨after, htext⟩ := text_signature env r polymorphic head f cls
    refine .start ((compileTimeList env f cls).text ++ ("(" ++
      ((f.printParams env.names).text ++ (")" ++ after)))) openEnd_methodFront ?_ ?_
    · exact (openStart_compileTimeList _).append (Text.Stops.append ⟨by decide, by decide⟩ _).start
    · show _ = r.methodFront env polymorphic head f ++ Identifier.sanitize declared ++ _
      rw [htext]
      simp only [String.append_assoc]
      rfl
  | inside homits hsome h =>
    obtain ⟨cls, hcls⟩ := Option.isSome_iff_exists.1 hsome
    obtain ⟨inits, hlines⟩ := lines_methodBlock polymorphic homits hcls
    obtain ⟨after, htext⟩ := text_signature env r polymorphic head f cls
    let cx : PrintContext :=
      { env.print with polymorphic, pointerReturn := f.returnType.isPointer }
    refine (Function.Declares.written cx h (fun d hd => ?_) (fun ps d hps hd => ?_) inits
      _).within (hlines.map Stroke.line)
    · rw [htext]
      exact hd.parens _ _
    · have hlist : d.StandsIn (Printed.joined ", " ((cls.templateArg.map Printed.ofText).toList ++
          (f.templateParams.map (TemplateParam.printAll env.names)).toList)).text :=
        hd.joined (List.mem_append_right _ (by rw [hps]; exact List.mem_cons_self))
      have hparens := hlist.parens (r.methodFront env polymorphic head f ++ cls.name)
        ("(" ++ ((f.printParams env.names).text ++ (")" ++ after)))
      have hparts : ((cls.templateArg.map Printed.ofText).toList ++
          (f.templateParams.map (TemplateParam.printAll env.names)).toList).isEmpty = false := by
        rw [hps]
        simp
      rw [htext]
      unfold compileTimeList
      dsimp only
      rw [hparts, if_neg Bool.false_ne_true]
      simp only [text_append, text_ofText, String.append_assoc] at hparens ⊢
      exact hparens

end RecordDecl

end DBindings
