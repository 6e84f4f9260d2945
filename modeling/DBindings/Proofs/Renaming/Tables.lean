import DBindings.Emit.Record
import DBindings.Proofs.Naming.Visited
import DBindings.Proofs.Renaming.Types
import DBindings.Proofs.Tree.Scopes

/-!
# The name table of a renamed unit

Naming finds nothing to number in a unit that has its names in place: every record and field that it
visits has a name of its own.  What is left are the names that typedefs give to other declarations.

* `TranslationUnit.settled_rename`   records that are visited have names of their own;
* `NameTable.Stripped`               one table is another without the names of anonymous records;
* `NameTable.stripped_assign`        so is the table of the renamed unit;
* `NameTable.agree_rename`           types name the same records;
* `NameTable.declName_rename`        declarations have the same names;
* `NameTable.fieldName_rename`       fields have the same names.
-/

namespace DBindings

/-! ## What is visited -/

namespace Decl
variable {ρ : Renaming}

mutual

theorem inside_rename : (d : Decl) → (d.rename ρ).inside = d.inside.map (RecordDecl.rename ρ)
  | record head info members methods => by
    rw [rename, inside, inside, insideAll_rename members, List.map_cons]
    rfl
  | space _ _ | enumeration _ _ | function _ _ | typedef _ _ | var _ _ | macroDef _ _ => rfl

theorem insideAll_rename :
    (ds : List Decl) → insideAll (renameAll ρ ds) = (insideAll ds).map (RecordDecl.rename ρ)
  | [] => rfl
  | d :: ds => by
    rw [renameAll, insideAll, insideAll, inside_rename d, insideAll_rename ds, List.map_append]

end

mutual

theorem visited_rename : (d : Decl) → (d.rename ρ).visited = d.visited.map (RecordDecl.rename ρ)
  | space head members => by rw [rename, visited, visited, visitedAll_rename members]
  | record head info members methods => inside_rename (record head info members methods)
  | enumeration _ _ | function _ _ | typedef _ _ | var _ _ | macroDef _ _ => rfl

theorem visitedAll_rename :
    (ds : List Decl) → visitedAll (renameAll ρ ds) = (visitedAll ds).map (RecordDecl.rename ρ)
  | [] => rfl
  | d :: ds => by
    rw [renameAll, visitedAll, visitedAll, visited_rename d, visitedAll_rename ds, List.map_append]

end

end Decl

theorem TranslationUnit.visited_renameBy (ρ : Renaming) (unit : TranslationUnit) :
    (unit.renameBy ρ).visited = unit.visited.map (RecordDecl.rename ρ) := by
  unfold visited renameBy
  rw [List.flatMap_map, List.map_flatMap]
  simp only [Decl.visitedAll_rename]

theorem Field.getElem?_renameFrom (ρ : Renaming) (record : DeclId) (position : Nat)
    (fields : List Field) (i : Nat) : (renameFrom ρ record position fields)[i]?
      = fields[i]?.map (rename ρ record (position + i)) := by
  induction fields generalizing position i with
  | nil => rfl
  | cons field rest ih =>
    cases i with
    | zero => rfl
    | succ i =>
      rw [renameFrom, List.getElem?_cons_succ, List.getElem?_cons_succ, ih]
      rw [show position + 1 + i = position + (i + 1) by omega]

/-! ## Numbers that are used once -/

section
variable {unit : TranslationUnit} (hids : (unit.walk.map Decl.id).Nodup)
include hids

namespace TranslationUnit

theorem isAnonymous_of_mem {d : Decl} (hd : d ∈ unit.walk) :
    unit.isAnonymous d.id = d.record?.any (·.head.name.isNone) := by
  rw [isAnonymous, DeclIndex.record?, DeclIndex.get?_of_mem hids hd, Option.bind_some]

theorem isAnonymous_record {r : RecordDecl} (hr : r.toDecl ∈ unit.walk) :
    unit.isAnonymous r.head.id = r.head.name.isNone := isAnonymous_of_mem hids hr

/-- In a renamed unit a record that is visited has a name, and so have its fields. -/
theorem settled_rename {r : RecordDecl} (hr : r ∈ unit.visited) :
    (r.rename unit.givenNames).Settled where
  record := by
    show (r.head.name.or (unit.givenNames.record? r.head.id)).isSome = true
    cases hname : r.head.name with
    | some name => rfl
    | none =>
      show (if unit.isAnonymous r.head.id then _ else _ : Option String).isSome = true
      rw [isAnonymous_record hids (toDecl_mem_walk hr), hname]
      exact (NameTable.named_assign hr).record hname
  field f' hf' := by
    obtain ⟨i, hi⟩ := List.mem_iff_getElem?.1 hf'
    rw [RecordDecl.rename, RecordInfo.rename, Field.getElem?_renameFrom] at hi
    obtain ⟨f, hf, rfl⟩ := Option.map_eq_some_iff.1 hi
    rw [Nat.zero_add, Field.rename]
    cases hcond : f.name.isSome || f.bitWidth.isSome with
    | true => exact hcond
    | false =>
      obtain ⟨hname, hwidth⟩ := Bool.or_eq_false_iff.1 hcond
      have hnamed := (NameTable.named_assign hr).field i f hf (by simpa using hname)
        (by simpa using hwidth)
      show (((NameTable.assign unit).fieldName? r.head.id i).isSome || _) = true
      rw [hnamed]
      rfl

end TranslationUnit

end

/-! ## Names from typedefs -/

namespace DeclIndex
variable {unit : TranslationUnit} {id : DeclId} {d : Decl}

theorem isAnonymous_eq (hd : (ofUnit unit).get? id = some d) :
    unit.isAnonymous id = d.record?.any (·.head.name.isNone) := by
  rw [TranslationUnit.isAnonymous, record?, hd, Option.bind_some]

/-- The name of a renamed declaration: an anonymous record has the one that the table gives it. -/
theorem name_rename (hd : (ofUnit unit).get? id = some d) :
    (d.rename unit.givenNames).head.name
      = if unit.isAnonymous id then (NameTable.assign unit).get? id else d.head.name := by
  have hid : d.id = id := (mem_of_get? hd).2
  have hanon := isAnonymous_eq hd
  cases d with
  | record head info members methods =>
    show head.name.or (unit.givenNames.record? head.id) = _
    rw [show head.id = id from hid, TranslationUnit.givenNames]
    dsimp only
    change unit.isAnonymous id = head.name.isNone at hanon
    cases hname : head.name with
    | none => rw [hanon, hname, Option.none_or]; rfl
    | some name => rw [hanon, hname, Option.some_or]; exact hname.symm
  | _ =>
    rw [hanon]
    rfl

theorem name_of_isAnonymous (hd : (ofUnit unit).get? id = some d)
    (hanon : unit.isAnonymous id = true) : d.head.name = none := by
  rw [isAnonymous_eq hd] at hanon
  cases d with
  | record head info members methods => exact Option.isNone_iff_eq_none.1 hanon
  | _ => exact absurd hanon Bool.false_ne_true

end DeclIndex

namespace NameTable
variable {unit : TranslationUnit} {t t' : NameTable}

/-- A table without the names that another one has for anonymous records. -/
def Stripped (unit : TranslationUnit) (t t' : NameTable) : Prop :=
  ∀ id, t'.get? id = if unit.isAnonymous id then none else t.get? id

theorem Stripped.name_anonymous (h : Stripped unit t t') {id : DeclId}
    (hid : unit.isAnonymous id = true) (name : String) : Stripped unit (t.name id name) t' := by
  intro x
  rw [h x, get?_name]
  by_cases hx : x = id
  · rw [hx, hid]
    rfl
  · rw [if_neg hx]

theorem Stripped.name_other (h : Stripped unit t t') {id : DeclId}
    (hid : unit.isAnonymous id = false) (name : String) :
    Stripped unit (t.name id name) (t'.name id name) := by
  intro x
  rw [get?_name, get?_name, h id, hid, h x]
  by_cases hx : x = id
  · rw [if_pos hx, if_pos hx, hx, hid]
    rfl
  · rw [if_neg hx, if_neg hx]

theorem Stripped.name_absent (h : Stripped unit t t') {id : DeclId} {d : Decl}
    (hd : (DeclIndex.ofUnit unit).get? id = some d) (name : String)
    (ht : (if d.head.name.isNone then t.name id name else t).Extends (assign unit)) :
    Stripped unit (if d.head.name.isNone then t.name id name else t)
      (if (d.rename unit.givenNames).head.name.isNone then t'.name id name else t') := by
  rw [DeclIndex.name_rename hd]
  cases hanon : unit.isAnonymous id with
  | false =>
    rw [if_neg Bool.false_ne_true]
    cases d.head.name with
    | none => exact h.name_other hanon name
    | some _ => exact h
  | true =>
    rw [DeclIndex.name_of_isAnonymous hd hanon] at ht ⊢
    have hname : ((t.name id name).get? id).isSome = true := by
      rw [get?_name, if_pos rfl]
      rfl
    obtain ⟨final, hfinal⟩ := Option.isSome_iff_exists.1 (Extends.isSome ht hname)
    rw [if_pos rfl, hfinal]
    exact h.name_anonymous hanon name

theorem nameByTypedef_record (index : DeclIndex) (t : NameTable) (head : DeclHead)
    (info : RecordInfo) (members methods : List Decl) :
    nameByTypedef index t (.record head info members methods) = match info.typedefName with
      | some name => if head.name.isNone then t.name head.id name else t
      | none => t := by
  unfold nameByTypedef
  dsimp only
  cases head.name <;> cases info.typedefName <;> rfl

section
variable (hids : (unit.walk.map Decl.id).Nodup)
include hids

theorem Stripped.nameByTypedef (h : Stripped unit t t') {d : Decl} (hd : d ∈ unit.walk)
    (ht : (NameTable.nameByTypedef (.ofUnit unit) t d).Extends (assign unit)) :
    Stripped unit (NameTable.nameByTypedef (.ofUnit unit) t d)
      (NameTable.nameByTypedef (.ofUnit unit.rename) t' (d.rename unit.givenNames)) := by
  cases d with
  | typedef head underlying =>
    revert ht
    unfold NameTable.nameByTypedef
    rw [Decl.rename]
    dsimp only
    rw [Ty.desugar_rename]
    cases head.name with
    | none => exact fun _ => h
    | some name =>
      cases underlying.desugar with
      | record ref =>
        dsimp only [Ty.rename, DeclRef.rename]
        rw [TranslationUnit.rename, DeclIndex.ofUnit_renameBy, DeclIndex.get?_rename]
        cases hget : (DeclIndex.ofUnit unit).get? ref.id with
        | none => exact fun _ => h
        | some target => exact fun ht => h.name_absent hget name ht
      | _ => exact fun _ => h
  | record head info members methods =>
    rw [nameByTypedef_record] at ht ⊢
    rw [Decl.rename, nameByTypedef_record]
    change (match info.typedefName with | some name => _ | none => _ : NameTable).Extends _ at ht
    show Stripped unit (match info.typedefName with | some name => _ | none => _)
      (match info.typedefName with | some name => _ | none => _)
    cases htypedef : info.typedefName with
    | none => exact h
    | some name =>
      rw [htypedef] at ht
      exact h.name_absent (DeclIndex.get?_of_mem hids hd) name ht
  | _ => exact h

/-- Over the declarations of a unit; the names so far stay up to the end. -/
theorem Stripped.foldl_nameByTypedef (h : Stripped unit t t') (ds : List Decl)
    (hds : ∀ d ∈ ds, d ∈ unit.walk)
    (ht : (ds.foldl (NameTable.nameByTypedef (.ofUnit unit)) t).Extends (assign unit)) :
    Stripped unit (ds.foldl (NameTable.nameByTypedef (.ofUnit unit)) t)
      ((ds.map (Decl.rename unit.givenNames)).foldl
        (NameTable.nameByTypedef (.ofUnit unit.rename)) t') := by
  induction ds generalizing t t' with
  | nil => exact h
  | cons d ds ih =>
    have hstep := h.nameByTypedef hids (hds d List.mem_cons_self)
      ((extends_foldl_nameByTypedef _ _ ds).trans ht)
    exact ih hstep (fun e he => hds e (List.mem_cons_of_mem _ he)) ht

theorem assign_rename : assign unit.rename = fromTypedefs unit.rename := by
  refine assign_of_settled fun r' hr' => ?_
  rw [TranslationUnit.rename, TranslationUnit.visited_renameBy] at hr'
  obtain ⟨r, hr, rfl⟩ := List.mem_map.1 hr'
  exact TranslationUnit.settled_rename hids hr

/-- The table of the renamed unit is that of the unit without the names in place. -/
theorem stripped_assign : Stripped unit (assign unit) (assign unit.rename) := by
  have hfold : Stripped unit (fromTypedefs unit) (fromTypedefs unit.rename) := by
    have hwalk : unit.rename.walk = unit.walk.map (Decl.rename unit.givenNames) :=
      TranslationUnit.walk_renameBy _ unit
    rw [fromTypedefs, fromTypedefs, hwalk]
    refine Stripped.foldl_nameByTypedef hids (fun id => ?_) unit.walk (fun d hd => hd)
      (extends_assign unit)
    split <;> rfl
  intro id
  rw [assign_rename hids, hfold id]
  cases hanon : unit.isAnonymous id with
  | true => rfl
  | false =>
    rw [if_neg Bool.false_ne_true, if_neg Bool.false_ne_true, get?_assign]
    intro r hr hname hid
    rw [← hid, TranslationUnit.isAnonymous_record hids (TranslationUnit.toDecl_mem_walk hr),
      hname] at hanon
    exact absurd hanon (by decide)

/-! ## The same names -/

theorem agree_rename : (assign unit).Agree unit.givenNames (assign unit.rename) := by
  intro ref
  show ((assign unit.rename).get? ref.id).getD ((unit.givenNames.record? ref.id).getD ref.name) = _
  rw [stripped_assign hids ref.id, refName, TranslationUnit.givenNames]
  dsimp only
  cases unit.isAnonymous ref.id with
  | true => rfl
  | false => rfl

theorem declName_rename {d : Decl} (hd : d ∈ unit.walk) :
    (assign unit.rename).declName (d.rename unit.givenNames).head
      = (assign unit).declName d.head := by
  have hget := DeclIndex.get?_of_mem hids hd
  have hid : (d.rename unit.givenNames).head.id = d.id := Decl.id_rename _ d
  rw [declName, declName, hid, stripped_assign hids, DeclIndex.name_rename hget]
  cases hanon : unit.isAnonymous d.id with
  | true =>
    rw [DeclIndex.name_of_isAnonymous hget hanon]
    rfl
  | false => rfl

/-- A field that is no bit-field has the same name; a name in the table is written as it is. -/
theorem fieldName_rename {r : RecordDecl} (hr : r.toDecl ∈ unit.walk) {i : Nat} {f : Field}
    (hf : r.info.fields[i]? = some f) (hwidth : f.bitWidth = none) (absent : String) :
    (RecordDecl.givenName? (f.rename unit.givenNames r.head.id i)).getD
        (((assign unit.rename).fieldName? r.head.id i).getD absent)
      = (RecordDecl.givenName? f).getD (((assign unit).fieldName? r.head.id i).getD absent) := by
  have hnone : (assign unit.rename).fieldName? r.head.id i = none := by
    rw [assign_rename hids, fieldName?, fields_fromTypedefs]
    rfl
  have hown : ∀ name, (assign unit).fieldName? r.head.id i = some name →
      IsFieldName name ∧ f.name = none := by
    intro name hname
    obtain ⟨hsynthetic, r', hr', hid, f', hf', hunnamed⟩ := fieldsOf_assign unit _ _ _ hname
    have hsame : r'.toDecl = r.toDecl :=
      List.inj_on_of_nodup_map hids (TranslationUnit.toDecl_mem_walk hr') hr hid
    rw [show r' = r from Option.some.inj (congrArg Decl.record? hsame), hf] at hf'
    rw [Option.some.inj hf']
    exact ⟨hsynthetic, hunnamed⟩
  rw [hnone, Option.getD_none]
  unfold RecordDecl.givenName?
  rw [Field.rename, hwidth]
  cases hname : f.name with
  | some own =>
    have htable : (assign unit).fieldName? r.head.id i = none := by
      cases htable : (assign unit).fieldName? r.head.id i with
      | none => rfl
      | some name => exact absurd ((hown name htable).2.symm.trans hname) (by simp)
    rw [htable]
    rfl
  | none =>
    show (match (assign unit).fieldName? r.head.id i with
      | some name => _ | none => none).getD _ = _
    cases htable : (assign unit).fieldName? r.head.id i with
    | none => rfl
    | some name =>
      have hsynthetic := (hown name htable).1
      dsimp only
      rw [if_neg hsynthetic.ne_empty, hsynthetic.sanitize]
      rfl

end

end NameTable

end DBindings
