import DBindings.Emit.Method
import DBindings.Emit.Shape

/-!
# Records

A record is written with its base classes, members, fields and methods.  Its members may be
records, and a typedef among them may name any record of the unit, which is then written at that
place.  Every record that is written is registered first, so the nesting of such steps is bounded by
the number of declarations.

* `RecordDecl.emit`     writes a record, given how to write the records inside it;
* `Emit.nested`         writes a record inside another one, at most once.
-/

namespace DBindings

namespace Enumeration

/-- The strokes of an enum: an alias for its integer type, and its enumerators with a comma behind
each of several. -/
def strokes (env : EmitEnv) (head : DeclHead) (e : Enumeration) : List Stroke :=
  let int := env.render e.integerType
  let name := env.names.declName head
  let opening : List Stroke :=
    if name = "" then [.line ("enum : " ++ int)]
    else [.line ("alias " ++ name ++ " = " ++ int ++ ";"), .line ("enum : " ++ name)]
  let separator := if 1 < e.enumerators.length then "," else ""
  opening ++ [.line "\x7b", .indent] ++
    e.enumerators.map (fun x =>
      .line (Identifier.sanitize x.name ++ " = " ++ toString x.value ++ separator)) ++
    [.dedent, .line "\x7d", .line ""]

end Enumeration

namespace Emit

/-- Writes a typedef.  A typedef of a record of the unit writes the record, by `record`, and then an
alias if the names differ. -/
def typedef (env : EmitEnv) (record : RecordDecl → Emit PUnit) (head : DeclHead) (underlying : Ty)
    (topLevel : Bool) : Emit PUnit := do
  let name := head.name.getD ""
  let target := match underlying.desugar with
    | .record ref => env.index.record? ref.id
    | _ => none
  match target with
  | some r =>
    record r
    let recordName := env.names.declName r.head
    if recordName != name then lines ["alias " ++ name ++ " = " ++ recordName ++ ";", ""]
  | none =>
    line ("alias " ++ name ++ " = " ++ env.functionLinkage head.context underlying ++
      env.render underlying ++ ";")
    if topLevel then line ""

end Emit

namespace RecordDecl

/-- The attribute with size and alignment, where they are known. -/
def sizeLines (r : RecordDecl) : List String :=
  match r.info.layout with
  | some layout =>
    if 0 < layout.size ∧ !r.info.isTemplated then
      ["@cppclasssize(" ++ toString layout.size ++ ")" ++
        if 0 < layout.align then " align(" ++ toString layout.align ++ ")" else ""]
    else []
  | none => []

/-- An argument of a specialization in the header of its record. -/
def specializationArg (env : EmitEnv) : TemplateArg → String
  | .integral value bits signed => integerTypeName bits signed ++ " T: " ++ toString value
  | arg => arg.render env.names

/-- The template parameters in the header. -/
def templateList (env : EmitEnv) (r : RecordDecl) : Printed :=
  match r.info.template with
  | some (.described params) => "(" ++ TemplateParam.printAll env.names params ++ ")"
  | some (.specialization args) =>
    "(" ++ commaSeparated (args.map (specializationArg env)) ++ ")"
  | none => ""

/-- The base classes in the header, as D spells them. -/
def inherited (env : EmitEnv) (r : RecordDecl) (polymorphic : Bool) : List String :=
  (r.baseTypes.filter (env.index.isInherited polymorphic)).map env.render

/-- The base classes that become members, as D spells them. -/
def flattened (env : EmitEnv) (r : RecordDecl) (polymorphic : Bool) : List String :=
  (r.baseTypes.filter (!env.index.isInherited polymorphic ·)).map env.render

/-- The first line of the declaration. -/
def header (env : EmitEnv) (r : RecordDecl) (polymorphic : Bool) : Printed :=
  let bases := inherited env r polymorphic
  ((RecordShape.choose r.info.tag polymorphic).keyword ++ " " ++ env.names.declName r.head) ++
    templateList env r ++ (if bases.isEmpty then "" else " : " ++ commaSeparated bases)

/-- The members that stand for base classes. -/
def baseLines (env : EmitEnv) (r : RecordDecl) (polymorphic : Bool) : List String :=
  (flattened env r polymorphic).zipIdx.flatMap fun (ty, i) =>
    [ty ++ " _b" ++ toString i ++ ";", "alias _b" ++ toString i ++ " this;"]

def staticLine (env : EmitEnv) (r : RecordDecl) (head : DeclHead) (v : Variable) : String :=
  "static " ++ head.access.keyword r.info.tag ++ " " ++ env.render v.ty ++ " " ++
    Identifier.sanitize (head.name.getD "") ++ ";"

/-- The name of a field, if it is written with one. -/
def givenName? (field : Field) : Option String :=
  match field.name with
  | some name => if name = "" then none else some (Identifier.sanitize name)
  | none => none

/-- A field that is no bit-field. -/
def fieldLine (env : EmitEnv) (r : RecordDecl) (position : Nat) (field : Field) : Printed :=
  let name := (givenName? field).getD
    ((env.names.fieldName? r.head.id position).getD ("_field" ++ toString position))
  let bytes := (field.sizeBits.getD 0) / 8
  ("@cppsize(" ++ toString bytes ++ ") " ++ field.access.keyword r.info.tag ++ " " ++
      env.render field.ty ++ " " ++ name) ++
    (match field.inClassInit with
      | some init => " = " ++ init.print env.print
      | none => "") ++ ";"

/-- Writes the group of a run of bit-fields, if it is open. -/
def closeRun (run : BitfieldRun) : Emit BitfieldRun := do
  let (group, run) := run.close
  Emit.lines (group.getD [])
  return run

/-- Writes the fields from a position on; bit-fields are gathered until another field or the end. -/
def emitFields (env : EmitEnv) (r : RecordDecl) : BitfieldRun → Nat → List Field → Emit PUnit
  | run, _, [] => do discard (closeRun run)
  | run, position, field :: rest => do
    match field.bitWidth with
    | some width =>
      let (pushed, run) := run.push ⟨env.render field.ty, (givenName? field).getD "", width⟩
      Emit.ofExcept pushed
      emitFields env r run (position + 1) rest
    | none =>
      let run ← closeRun run
      Emit.line (← Emit.printed (fieldLine env r position field))
      emitFields env r run (position + 1) rest

/-- Writes a member; `nested` writes a record inside this one. -/
def emitMember (env : EmitEnv) (nested : RecordDecl → Emit PUnit) (r : RecordDecl)
    (polymorphic : Bool) : Decl → Emit PUnit
  | .enumeration head e => do
    if ← Emit.register head.id then Emit.strokes (e.strokes env head)
  | .record head info members methods => nested ⟨head, info, members, methods⟩
  | .typedef head underlying => do
    if ← Emit.register head.id then Emit.typedef env nested head underlying false
  | .var head v => Emit.line (staticLine env r head v)
  | .function head f => Emit.block (methodBlock env r polymorphic head f)
  | .space _ _ | .macroDef _ _ => pure ()

def emitMethod (env : EmitEnv) (r : RecordDecl) (polymorphic : Bool) : Decl → Emit PUnit
  | .function head f => Emit.block (methodBlock env r polymorphic head f)
  | _ => pure ()

/-- Writes what stands between the braces of a complete record. -/
def emitInside (env : EmitEnv) (nested : RecordDecl → Emit PUnit) (r : RecordDecl)
    (polymorphic : Bool) : Emit PUnit := do
  Emit.lines (baseLines env r polymorphic)
  r.members.forM (emitMember env nested r polymorphic)
  emitFields env r { record := env.names.declName r.head } 0 r.info.fields
  r.methods.forM (emitMethod env r polymorphic)

/-- The first strokes of a record, from its header to its first member. -/
def openingStrokes (header : String) : List Stroke := [.line header, .line "\x7b", .indent]

def emitComplete (env : EmitEnv) (nested : RecordDecl → Emit PUnit) (r : RecordDecl) :
    Emit PUnit := do
  let polymorphic := env.index.isPolymorphic r
  let isStruct := RecordShape.choose r.info.tag polymorphic == .struct
  Emit.lines r.sizeLines
  let header ← Emit.printed (header env r polymorphic)
  Emit.strokes (openingStrokes header)
  emitInside env nested r polymorphic
  modify (·.settle r.head.id isStruct)
  modify (·.close r.head.id isStruct)

/-- Writes a record that has been registered.  At top level the namespace style stands around it. -/
def emit (env : EmitEnv) (nested : RecordDecl → Emit PUnit) (r : RecordDecl) (topLevel : Bool) :
    Emit PUnit := do
  let ctx := r.head.context
  if topLevel then Emit.strokes (env.style.begin_ ctx (env.linkage ctx))
  if r.info.complete then emitComplete env nested r
  else Emit.line ("struct " ++ env.names.declName r.head ++ ";")
  if topLevel then Emit.strokes (env.style.finish ctx)

end RecordDecl

namespace Emit

/-- Writes a record inside another one, if it is complete and has not been written; `depth` bounds
the records open at a time. -/
def nestedWithin (env : EmitEnv) : Nat → RecordDecl → Emit PUnit
  | 0, _ => pure ()
  | depth + 1, r => do
    if !r.info.complete || r.info.dependent then return
    if !(← register r.head.id) then return
    enter r.head.id
    r.emit env (nestedWithin env depth) false
    leave
    line ""

/-- Writes a record inside another one.  Each record that is open has been registered, so no more
than all declarations can be open. -/
def nested (env : EmitEnv) : RecordDecl → Emit PUnit :=
  nestedWithin env (env.index.decls.length + 1)

end Emit

end DBindings
