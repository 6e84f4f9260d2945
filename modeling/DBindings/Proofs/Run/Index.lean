import DBindings.Proofs.Document.Events
import DBindings.Proofs.Document.Recursion
import DBindings.Proofs.Renaming.Emission
import DBindings.Proofs.Tree.Mentions

/-!
# Writing with a longer index

Declarations are looked up by the numbers that types refer to.  An index with more declarations
changes nothing for those of a shorter one, if it finds the same records for what they refer to.

* `DeclIndex.Within`             one index has the declarations of another one, and more;
* `DeclIndex.isPolymorphic_within`   records have the same shapes;
* `RecordDecl.emit_within`       records are written alike, given how to write those inside them;
* `Emit.nested_within`           and so are the records inside records;
* `Emit.drive_within`            and all declarations.
-/

namespace DBindings

/-! ## Shapes -/

/-- An index has the declarations of another one, and the same records for what these refer to. -/
structure DeclIndex.Within (index index' : DeclIndex) : Prop where
  mem : ∀ d ∈ index.decls, d ∈ index'.decls
  record? : ∀ d ∈ index.decls, ∀ id ∈ d.refs, index'.record? id = index.record? id

namespace DeclIndex
variable {index index' : DeclIndex} (h : index.Within index')
include h

theorem Within.baseTypes {r : RecordDecl} (hr : r.toDecl ∈ index.decls) {ty : Ty}
    (hty : ty ∈ r.baseTypes) {ref : DeclRef} (href : ty.record? = some ref) :
    index'.record? ref.id = index.record? ref.id := by
  obtain ⟨base, hbase, rfl⟩ := List.mem_map.1 hty
  refine h.record? _ hr _ (List.mem_append_left _ (List.mem_append_left _ ?_))
  exact List.mem_flatMap.2 ⟨base, hbase, base.ty.mem_refs_of_record? href⟩

theorem search_within (seen : List DeclId) (work : List Ty)
    (hwork : ∀ ty ∈ work, ∀ ref, ty.record? = some ref →
      index'.record? ref.id = index.record? ref.id) :
    index'.search seen work = index.search seen work := by
  induction seen, work using search.induct index with
  | case1 seen => rw [search, search]
  | case2 seen ty rest hty ih =>
    obtain ⟨-, hrest⟩ := List.forall_mem_cons.1 hwork
    rw [search, search, hty]
    exact ih hrest
  | case3 seen ty rest ref hty hseen ih =>
    obtain ⟨-, hrest⟩ := List.forall_mem_cons.1 hwork
    rw [search_seen _ hty hseen, search_seen _ hty hseen, ih hrest]
  | case4 seen ty rest ref hty hseen hrecord ih =>
    obtain ⟨hfirst, hrest⟩ := List.forall_mem_cons.1 hwork
    rw [search_unseen _ hty hseen, search_unseen _ hty hseen, hfirst ref hty, hrecord]
    exact ih hrest
  | case5 seen ty rest ref hty hseen r hrecord ih =>
    obtain ⟨hfirst, hrest⟩ := List.forall_mem_cons.1 hwork
    rw [search_unseen _ hty hseen, search_unseen _ hty hseen, hfirst ref hty, hrecord]
    dsimp only
    rw [ih (List.forall_mem_append.2
      ⟨fun base hbase _ => h.baseTypes (toDecl_mem hrecord) hbase, hrest⟩)]

theorem isPolymorphic_within {r : RecordDecl} (hr : r.toDecl ∈ index.decls) :
    index'.isPolymorphic r = index.isPolymorphic r := by
  unfold isPolymorphic
  rw [search_within h [] r.baseTypes fun ty hty _ => h.baseTypes hr hty]

theorem isInherited_within {r : RecordDecl} (hr : r.toDecl ∈ index.decls) (polymorphic : Bool)
    {base : Ty} (hbase : base ∈ r.baseTypes) :
    index'.isInherited polymorphic base = index.isInherited polymorphic base := by
  unfold isInherited
  cases href : base.record? with
  | none => rfl
  | some ref =>
    dsimp only
    rw [h.baseTypes hr hbase href]
    cases hrecord : index.record? ref.id with
    | none => rfl
    | some r' => exact isPolymorphic_within h (toDecl_mem hrecord)

end DeclIndex

/-! ## Records -/

theorem Emit.forM_congr {α : Type} {l : List α} {f f' : α → Emit PUnit}
    (h : ∀ a ∈ l, f' a = f a) : l.forM f' = l.forM f := by
  have hmap : (l.map id).forM f' = l.forM f := forM_map h
  rwa [List.map_id] at hmap

/-- Settings with another index. -/
def EmitEnv.withIndex (env : EmitEnv) (index : DeclIndex) : EmitEnv := { env with index }

section
variable {env : EmitEnv} {index' : DeclIndex} (h : env.index.Within index')
include h

theorem Emit.typedef_within {head : DeclHead} {underlying : Ty}
    (hmem : Decl.typedef head underlying ∈ env.index.decls)
    {record record' : RecordDecl → Emit PUnit}
    (hrecord : ∀ r : RecordDecl, r.toDecl ∈ env.index.decls → record' r = record r)
    (topLevel : Bool) : Emit.typedef (env.withIndex index') record' head underlying topLevel =
      Emit.typedef env record head underlying topLevel := by
  have hnamed : (env.withIndex index').namedRecord? underlying = env.namedRecord? underlying := by
    unfold EmitEnv.namedRecord?
    cases hunderlying : underlying.desugar with
    | record ref => exact h.record? _ hmem _ (underlying.mem_refs_of_desugar hunderlying)
    | _ => rfl
  rw [typedef_eq, typedef_eq, hnamed]
  cases hr : env.namedRecord? underlying with
  | none => rfl
  | some r =>
    dsimp only
    rw [hrecord r (EmitEnv.toDecl_mem_of_named hr)]
    rfl

namespace RecordDecl
variable {r : RecordDecl} (hr : r.toDecl ∈ env.index.decls)
include hr

theorem inherited_within (polymorphic : Bool) :
    inherited (env.withIndex index') r polymorphic = inherited env r polymorphic := by
  unfold inherited
  have hfilter := List.filter_congr fun base hbase =>
    DeclIndex.isInherited_within h hr polymorphic hbase
  exact congrArg (List.map env.render) hfilter

theorem flattened_within (polymorphic : Bool) :
    flattened (env.withIndex index') r polymorphic = flattened env r polymorphic := by
  unfold flattened
  have hfilter := List.filter_congr fun base hbase =>
    congrArg not (DeclIndex.isInherited_within h hr polymorphic hbase)
  exact congrArg (List.map env.render) hfilter

theorem header_within (polymorphic : Bool) :
    header (env.withIndex index') r polymorphic = header env r polymorphic := by
  unfold header
  rw [inherited_within h hr]
  rfl

theorem baseLines_within (polymorphic : Bool) :
    baseLines (env.withIndex index') r polymorphic = baseLines env r polymorphic := by
  unfold baseLines
  rw [flattened_within h hr]

variable (nested : RecordDecl → Emit PUnit) (hclosed : env.index.Closed)
include hclosed

theorem emitMember_within (polymorphic : Bool) {d : Decl} (hd : d ∈ r.members) :
    emitMember (env.withIndex index') nested r polymorphic d =
      emitMember env nested r polymorphic d := by
  cases d with
  | typedef head underlying =>
    rw [emitMember, emitMember, Emit.typedef_within h (hclosed r hr _ hd) fun _ _ => rfl]
  | _ => rfl

theorem emitInside_within (polymorphic : Bool) :
    emitInside (env.withIndex index') nested r polymorphic =
      emitInside env nested r polymorphic := by
  have hmembers : r.members.forM (emitMember (env.withIndex index') nested r polymorphic) =
      r.members.forM (emitMember env nested r polymorphic) :=
    Emit.forM_congr fun d hd => emitMember_within h hr nested hclosed polymorphic hd
  have hmethod : emitMethod (env.withIndex index') r polymorphic = emitMethod env r polymorphic :=
    funext fun d => by cases d <;> rfl
  have hfields := emitFields_congr env (env.withIndex index') rfl r
  unfold emitInside
  rw [baseLines_within h hr, hmembers, hmethod, hfields]
  rfl

theorem emit_within (topLevel : Bool) :
    r.emit (env.withIndex index') nested topLevel = r.emit env nested topLevel := by
  have hpolymorphic : (env.withIndex index').index.isPolymorphic r = env.index.isPolymorphic r :=
    DeclIndex.isPolymorphic_within h hr
  have hcomplete : emitComplete (env.withIndex index') nested r = emitComplete env nested r := by
    unfold emitComplete
    dsimp only
    rw [hpolymorphic, header_within h hr, emitInside_within h hr nested hclosed]
  unfold emit
  rw [hcomplete]
  rfl

end RecordDecl

/-! ## Modules -/

namespace Emit
variable (hclosed : env.index.Closed) (hclosed' : index'.Closed)
include hclosed

theorem visit_within {r : RecordDecl} (hr : r.toDecl ∈ env.index.decls)
    (nested : RecordDecl → Emit PUnit) (topLevel : Bool) :
    visit (env.withIndex index') nested topLevel r = visit env nested topLevel r := by
  have hemit := RecordDecl.emit_within h hr nested hclosed
  unfold visit
  cases topLevel with
  | true =>
    rw [if_pos rfl, if_pos rfl, hemit]
    rfl
  | false =>
    rw [if_neg Bool.false_ne_true, if_neg Bool.false_ne_true, hemit]

include hclosed'

theorem nested_within {r : RecordDecl} (hr : r.toDecl ∈ env.index.decls) :
    nested (env.withIndex index') r = nested env r := by
  refine eq_nested hclosed (fun r hr => ?_) hr
  rw [← visit_within h hclosed hr]
  exact nested_eq_visit hclosed' (h.mem _ hr)

theorem enterRecord_within {r : RecordDecl} (hr : r.toDecl ∈ env.index.decls) :
    enterRecord (env.withIndex index') r = enterRecord env r := by
  have hnested {x : RecordDecl} (hx : x.toDecl ∈ env.index.decls) :=
    nested_within h hclosed hclosed' hx
  have hkeeps : ∀ x : RecordDecl, x.toDecl ∈ env.index.decls →
      Keeps (nested (env.withIndex index') x) := by
    intro x hx
    rw [hnested hx]
    exact keeps_nestedWithin hclosed _ hx
  rw [enterRecord_eq_visit, enterRecord_eq_visit, visit_within h hclosed hr]
  funext s
  refine exec_visit_congr hclosed hkeeps true ⟨r, s⟩ hr fun c hc => ?_
  unfold runs
  rw [hnested hc.opens.1]

theorem handle_within {event : Event} (hevent : EventIn env.index event) :
    handle (env.withIndex index') event = handle env event := by
  have henter {r : RecordDecl} (hr : r.toDecl ∈ env.index.decls) :=
    enterRecord_within h hclosed hclosed' hr
  cases event with
  | enterRecord d =>
    cases d with
    | record head info members methods => exact henter (r := ⟨head, info, members, methods⟩) hevent
    | _ => rfl
  | typedef d =>
    cases d with
    | typedef head underlying =>
      have htypedef : Emit.typedef (env.withIndex index')
          (fun r => do enterRecord (env.withIndex index') r; leaveRecord r.head.id) head underlying
            true =
          Emit.typedef env (fun r => do enterRecord env r; leaveRecord r.head.id) head underlying
            true :=
        typedef_within h hevent (fun r hr => by rw [henter hr]) true
      unfold handle
      dsimp only
      rw [htypedef]
      rfl
    | _ => rfl
  | enumeration d | function d | variable_ d => cases d <;> rfl
  | beginFile _ | endFile _ | define _ _ _ | leaveRecord _ => rfl

/-- A declaration of the shorter index is written in the same way. -/
theorem drive_within {d : Decl} (hd : ∀ e ∈ d.walk, e ∈ env.index.decls) :
    d.drive (handle (env.withIndex index')) = d.drive (handle env) := by
  rw [Decl.drive_eq_forM, Decl.drive_eq_forM]
  exact forM_congr fun _ hevent => handle_within h hclosed hclosed' (eventIn_events d hd hevent)

end Emit

end

end DBindings
