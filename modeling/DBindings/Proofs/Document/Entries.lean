import DBindings.Proofs.Bitfields.Fields
import DBindings.Proofs.Document.Steps

/-!
# What a module consists of

A module is a list of entries, each the code of one declaration.  The entries of a record are inside
it, and those written for the record that a typedef names are in front of the alias.

* `Entry.additionAll`       the strokes of entries, and what they register;
* `Entry.FitsAll`           the entries are declarations of a unit that may stand at their place;
* `Entry.placementsAll`     where each record stands, and for which typedef;
* `Entry.membersAll`        the functions and variables that are written as members of records.
-/

namespace DBindings

namespace EmitEnv

/-- The record of the unit that a type names. -/
def namedRecord? (env : EmitEnv) (ty : Ty) : Option RecordDecl :=
  match ty.desugar with
  | .record ref => env.index.record? ref.id
  | _ => none

theorem toDecl_mem_of_named {env : EmitEnv} {ty : Ty} {r : RecordDecl}
    (h : env.namedRecord? ty = some r) : r.toDecl ∈ env.index.decls := by
  unfold namedRecord? at h
  split at h
  · exact DeclIndex.toDecl_mem h
  · exact nomatch h

/-- What the namespace style writes in front of a declaration outside records. -/
def opening (env : EmitEnv) (topLevel : Bool) (ctx : DeclContext) : List Stroke :=
  if topLevel then env.style.begin_ ctx (env.linkage ctx) else []

def closing (env : EmitEnv) (topLevel : Bool) (ctx : DeclContext) : List Stroke :=
  if topLevel then env.style.finish ctx else []

end EmitEnv

namespace Decl

def isEnumeration : Decl → Bool
  | enumeration _ _ => true
  | _ => false

/-- A function or variable, which may be a member of a record without being registered. -/
def isCode : Decl → Bool
  | function _ _ | var _ _ => true
  | _ => false

theorem isCode_of_isEnumeration {d : Decl} (h : d.isEnumeration = true) : d.isCode = false := by
  cases d with
  | enumeration head e => rfl
  | _ => exact nomatch h

theorem record?_of_leaf {d : Decl} (h : d.isEnumeration = true ∨ d.isCode = true) :
    d.record? = none := by
  cases d with
  | record head info members methods => rcases h with h | h <;> exact nomatch h
  | _ => rfl

/-- The strokes of an enum, or of a function or variable outside records. -/
def leafCode (env : EmitEnv) : Decl → List Stroke
  | enumeration head e => e.strokes env head
  | function head f =>
    let name := head.name.getD ""
    if "operator".toList.isPrefixOf name.toList then []
    else env.opening true head.context ++ (f.freeBlock env name).lines.map .line ++
      env.closing true head.context ++ [.line ""]
  | var head v => [.line (Emit.variableCode env head v).text]
  | _ => []

/-- The strokes of a function or variable that is a member of a record. -/
def memberCode (env : EmitEnv) (r : RecordDecl) : Decl → List Stroke
  | var head v => [.line (r.staticLine env head v)]
  | function head f =>
    (r.methodBlock env (env.index.isPolymorphic r) head f).lines.map .line
  | _ => []

def methodCode (env : EmitEnv) (r : RecordDecl) (d : Decl) : List Stroke :=
  if d.function?.isSome then d.memberCode env r else []

end Decl

def EmitEnv.aliasCode (env : EmitEnv) (topLevel : Bool) (head : DeclHead) (underlying : Ty) :
    List Stroke :=
  let name := head.name.getD ""
  match env.namedRecord? underlying with
  | some r =>
    let recordName := env.names.declName r.head
    if recordName != name then [.line ("alias " ++ name ++ " = " ++ recordName ++ ";"), .line ""]
    else []
  | none =>
    .line ("alias " ++ name ++ " = " ++ env.functionLinkage head.context underlying ++
      env.render underlying ++ ";") :: if topLevel then [.line ""] else []

namespace RecordDecl

/-- The strokes of fields, from a position on. -/
def fieldsCode (env : EmitEnv) (r : RecordDecl) : BitfieldRun → Nat → List Field → List Stroke
  | run, _, [] => (run.close.1.getD []).map .line
  | run, position, field :: rest =>
    match field.bitWidth with
    | some width =>
      fieldsCode env r (run.push ⟨env.render field.ty, (givenName? field).getD "", width⟩).2
        (position + 1) rest
    | none =>
      (run.close.1.getD []).map .line ++ [.line (fieldLine env r position field).text] ++
        fieldsCode env r run.close.2 (position + 1) rest

/-- The strokes of a record in front of its members. -/
def frontCode (env : EmitEnv) (topLevel : Bool) (r : RecordDecl) : List Stroke :=
  env.opening topLevel r.head.context ++
    if r.info.complete then
      r.sizeLines.map .line ++ openingStrokes (r.headerText env) ++
        (r.baseLines env (env.index.isPolymorphic r)).map .line
    else [.line ("struct " ++ env.names.declName r.head ++ ";")]

/-- The strokes of a record behind its members. -/
def backCode (env : EmitEnv) (topLevel asked : Bool) (r : RecordDecl) : List Stroke :=
  (if r.info.complete then
      r.fieldsCode env { record := env.names.declName r.head } 0 r.info.fields ++
        r.methods.flatMap (Decl.methodCode env r) ++ EmitState.Adds.askedCode asked ++
        [.dedent, .line "\x7d"]
    else []) ++ env.closing topLevel r.head.context

/-- A record may stand in such a scope, which is a record or the module: inside a record it is
complete, and in the module its file is under an input root. -/
structure Admitted (env : EmitEnv) (scope : Option RecordDecl) (r : RecordDecl) : Prop where
  mem : r.toDecl ∈ env.index.decls
  independent : r.info.dependent = false
  relevant : scope = none → env.isRelevant r.head.loc = true
  complete : scope ≠ none → r.info.complete = true
  fit : r.info.complete = true → Field.Fit r.info.fields

end RecordDecl

/-- The code of one declaration, or of none. -/
inductive Entry where
  /-- the name of a file -/
  | banner (path : String)
  /-- an empty line -/
  | gap
  | constant (name : String) (definition : MacroDef) (loc : SourceLoc)
  /-- an enum, or a function or variable outside records -/
  | leaf (d : Decl)
  /-- a function or variable that is a member of the record around it -/
  | member (d : Decl)
  /-- a typedef; the target is what is written for the record that it names -/
  | typedef (head : DeclHead) (underlying : Ty) (target : List Entry)
  /-- a record, which may be asked for the mixin -/
  | record (r : RecordDecl) (asked : Bool) (members : List Entry)

/-- A record that is written, the record around it, and the typedef that it is written for. -/
structure Placement where
  record : RecordDecl
  scope : Option RecordDecl
  via : Option Decl

namespace Entry

/-- The declaration that an entry is the code of. -/
def source? : Entry → Option Decl
  | leaf d | member d => some d
  | typedef head underlying _ => some (.typedef head underlying)
  | record r _ _ => some r.toDecl
  | banner _ | gap | constant _ _ _ => none

/-- The declaration, if it is a member that is not registered. -/
def member? : Entry → Option Decl
  | member d => some d
  | _ => none

theorem eq_member {e : Entry} {d : Decl} (h : e.member? = some d) : e = member d := by
  cases e with
  | member d' => rw [Option.some.inj h]
  | _ => exact nomatch h

/-- An entry for a record that is named. -/
def IsOf (r : Option RecordDecl) : Entry → Prop
  | gap => True
  | record r' _ _ => r = some r'
  | _ => False

theorem filterMap_member?_of_isOf {r : Option RecordDecl} {es : List Entry}
    (h : ∀ e ∈ es, e.IsOf r) : es.filterMap member? = [] := by
  rw [List.filterMap_eq_nil_iff]
  intro e he
  cases e with
  | member d => exact (h _ he).elim
  | _ => rfl

mutual

/-- What an entry adds in a scope. -/
def addition (env : EmitEnv) (scope : Option RecordDecl) : Entry → Addition
  | banner path => .ofCode [.line "", .line ("// ------ " ++ path), .line ""]
  | gap => .ofCode [.line ""]
  | constant name definition loc =>
    { code := (definition.lines name loc).map .line, constants := [name] }
  | leaf d => .ofId d.id ++ .ofCode (d.leafCode env)
  | member d => .ofCode (scope.elim [] fun r => d.memberCode env r)
  | typedef head underlying target =>
    .ofId head.id ++ additionAll env scope target ++
      .ofCode (env.aliasCode scope.isNone head underlying)
  | record r asked members =>
    .ofId r.head.id ++ .ofCode (r.frontCode env scope.isNone) ++ additionAll env (some r) members ++
      .ofCode (r.backCode env scope.isNone asked)

def additionAll (env : EmitEnv) (scope : Option RecordDecl) : List Entry → Addition
  | [] => .none
  | e :: es => addition env scope e ++ additionAll env scope es

end

mutual

/-- An entry may stand in a scope, and what is inside it fits there.  The members of a record are in
the order of their declarations, and all its functions and variables are among them. -/
def Fits (env : EmitEnv) (scope : Option RecordDecl) : Entry → Prop
  | banner _ => scope = none
  | gap => True
  | constant _ _ loc => scope = none ∧ env.isRelevant loc = true
  | leaf d => d ∈ env.index.decls ∧ (scope = none → env.isRelevant d.head.loc = true) ∧
      (d.isEnumeration = true ∨ d.isCode = true ∧ scope = none)
  | member d => d ∈ env.index.decls ∧ d.isCode = true ∧ scope ≠ none
  | typedef head underlying target => .typedef head underlying ∈ env.index.decls ∧
      (scope = none → env.isRelevant head.loc = true) ∧ FitsAll env scope target ∧
      ∀ e ∈ target, e.IsOf (env.namedRecord? underlying)
  | record r _ members => r.Admitted env scope ∧ FitsAll env (some r) members ∧
      (members.filterMap source?).Sublist r.members ∧ (r.info.complete = false → members = []) ∧
      (r.info.complete = true → members.filterMap member? = r.members.filter Decl.isCode)

def FitsAll (env : EmitEnv) (scope : Option RecordDecl) : List Entry → Prop
  | [] => True
  | e :: es => Fits env scope e ∧ FitsAll env scope es

end

mutual

/-- Where the records of an entry stand; `via` is the typedef that it is written for. -/
def placements (scope : Option RecordDecl) (via : Option Decl) : Entry → List Placement
  | typedef head underlying target =>
    placementsAll scope (some (.typedef head underlying)) target
  | record r _ members => ⟨r, scope, via⟩ :: placementsAll (some r) none members
  | _ => []

def placementsAll (scope : Option RecordDecl) (via : Option Decl) : List Entry → List Placement
  | [] => []
  | e :: es => placements scope via e ++ placementsAll scope via es

end

mutual

def members : Entry → List Decl
  | member d => [d]
  | typedef _ _ target => membersAll target
  | record r _ inside => membersAll inside ++
      if r.info.complete then r.methods.filter (·.function?.isSome) else []
  | _ => []

def membersAll : List Entry → List Decl
  | [] => []
  | e :: es => members e ++ membersAll es

end

variable {env : EmitEnv} {scope : Option RecordDecl}

/-! ## Lists of entries -/

theorem additionAll_append (a b : List Entry) :
    additionAll env scope (a ++ b) = additionAll env scope a ++ additionAll env scope b := by
  induction a with
  | nil => exact (Addition.none_append _).symm
  | cons e a ih => rw [List.cons_append, additionAll, additionAll, ih, Addition.append_assoc]

theorem additionAll_singleton (e : Entry) :
    additionAll env scope [e] = addition env scope e := Addition.append_none _

theorem fitsAll_iff {es : List Entry} : FitsAll env scope es ↔ ∀ e ∈ es, Fits env scope e := by
  induction es with
  | nil => exact ⟨fun _ _ h => absurd h List.not_mem_nil, fun _ => trivial⟩
  | cons e es ih => rw [FitsAll, ih, List.forall_mem_cons]

theorem fitsAll_append {a b : List Entry} :
    FitsAll env scope (a ++ b) ↔ FitsAll env scope a ∧ FitsAll env scope b := by
  rw [fitsAll_iff, fitsAll_iff, fitsAll_iff, List.forall_mem_append]

theorem fitsAll_singleton {e : Entry} : FitsAll env scope [e] ↔ Fits env scope e := by
  rw [fitsAll_iff, List.forall_mem_singleton]

end Entry

end DBindings
