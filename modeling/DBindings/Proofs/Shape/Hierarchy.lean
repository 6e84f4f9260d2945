import DBindings.Proofs.Document.Events
import DBindings.Proofs.Document.Placements
import Mathlib.Logic.Relation

/-!
# Virtual methods in a hierarchy

The records that a record derives from form a graph without any order: bases may be shared,
repeated, unknown or circular.  A record is polymorphic if a virtual method can be reached in this
graph, and the keyword of its declaration says so.

* `DeclIndex.Derives`              a record can be reached through base classes;
* `DeclIndex.search_eq_true_iff`   the search finds a virtual method exactly if one can be reached;
* `TranslationUnit.keyword_iff`    which keyword a record is written with.
-/

namespace DBindings

/-! ## The graph of base classes -/

namespace Ty

/-- A type names a record, below qualifiers, typedefs and references. -/
inductive Names : Ty → DeclRef → Prop where
  | record (ref : DeclRef) : Names (.record ref) ref
  | qualified {inner : Ty} {ref : DeclRef} (isConst : Bool) :
    Names inner ref → Names (.qualified isConst inner) ref
  | typedef {underlying : Ty} {ref : DeclRef} (name : String) :
    Names underlying ref → Names (.typedef name underlying) ref
  | reference {inner : Ty} {ref : DeclRef} (rvalue : Bool) :
    Names inner ref → Names (.reference inner rvalue) ref

theorem record?_eq_some_iff {ty : Ty} {ref : DeclRef} : ty.record? = some ref ↔ ty.Names ref := by
  constructor
  · intro h
    fun_induction record? ty with
    | case1 ref' => exact Option.some.inj h ▸ .record ref'
    | case2 inner rvalue ih => exact .reference rvalue (ih h)
    | case3 isConst inner ih => exact .qualified isConst (ih h)
    | case4 name underlying ih => exact .typedef name (ih h)
    | case5 => exact nomatch h
  · intro h
    induction h with
    | record ref => rfl
    | qualified _ _ ih | typedef _ _ ih | reference _ _ ih => exact ih

end Ty

/-- A method of the record is virtual or pure. -/
def RecordDecl.DeclaresVirtual (r : RecordDecl) : Prop :=
  ∃ head f info, .function head f ∈ r.methods ∧ f.method = some info ∧
    (info.isVirtual = true ∨ info.isPure = true)

theorem RecordDecl.declaresVirtual_iff {r : RecordDecl} :
    r.declaresVirtual = true ↔ r.DeclaresVirtual := by
  unfold declaresVirtual DeclaresVirtual
  rw [List.any_eq_true]
  constructor
  · rintro ⟨d, hd, hvirtual⟩
    cases d with
    | function head f =>
      obtain ⟨info, hinfo, h⟩ := (Option.any_eq_true _ _).1 hvirtual
      exact ⟨head, f, info, hd, hinfo, by simpa using h⟩
    | _ => exact nomatch hvirtual
  · rintro ⟨head, f, info, hd, hinfo, h⟩
    refine ⟨_, hd, ?_⟩
    show f.method.any _ = true
    rw [hinfo]
    simpa using h

namespace DeclIndex
variable {index : DeclIndex}

/-- The type names this record of the unit. -/
def Targets (index : DeclIndex) (ty : Ty) (r : RecordDecl) : Prop :=
  ∃ ref, ty.Names ref ∧ index.record? ref.id = some r

/-- One of the types names this record. -/
def Leads (index : DeclIndex) (work : List Ty) (r : RecordDecl) : Prop :=
  ∃ ty ∈ work, index.Targets ty r

/-- One of the base types of a record names the other record. -/
def IsBase (index : DeclIndex) (r base : RecordDecl) : Prop := index.Leads r.baseTypes base

/-- The other record can be reached through base classes, in any number of steps. -/
def Derives (index : DeclIndex) : RecordDecl → RecordDecl → Prop :=
  Relation.ReflTransGen index.IsBase

/-- A virtual method can be reached. -/
def ReachesVirtual (index : DeclIndex) (r : RecordDecl) : Prop :=
  ∃ top, index.Derives r top ∧ top.DeclaresVirtual

theorem ReachesVirtual.of_derives {r base : RecordDecl} (hbase : index.Derives r base)
    (h : index.ReachesVirtual base) : index.ReachesVirtual r := by
  obtain ⟨top, htop, hvirtual⟩ := h
  exact ⟨top, hbase.trans htop, hvirtual⟩

theorem reachesVirtual_iff {r : RecordDecl} : index.ReachesVirtual r ↔
    r.DeclaresVirtual ∨ ∃ base, index.IsBase r base ∧ index.ReachesVirtual base := by
  constructor
  · rintro ⟨top, htop, hvirtual⟩
    rcases htop.cases_head with rfl | ⟨base, hbase, htop⟩
    · exact Or.inl hvirtual
    · exact Or.inr ⟨base, hbase, top, htop, hvirtual⟩
  · rintro (hvirtual | ⟨base, hbase, hreaches⟩)
    · exact ⟨r, .refl, hvirtual⟩
    · exact hreaches.of_derives (.single hbase)

theorem targets_iff {ty : Ty} {ref : DeclRef} {r : RecordDecl} (h : ty.record? = some ref) :
    index.Targets ty r ↔ index.record? ref.id = some r := by
  constructor
  · rintro ⟨ref', hnames, hr⟩
    rw [Ty.record?_eq_some_iff.2 hnames] at h
    rwa [Option.some.inj h] at hr
  · exact fun hr => ⟨ref, Ty.record?_eq_some_iff.1 h, hr⟩

theorem not_targets {ty : Ty} {r : RecordDecl} (h : ty.record? = none) :
    ¬ index.Targets ty r := by
  rintro ⟨ref, hnames, -⟩
  rw [Ty.record?_eq_some_iff.2 hnames] at h
  exact nomatch h

theorem leads_cons {ty : Ty} {rest : List Ty} {r : RecordDecl} :
    index.Leads (ty :: rest) r ↔ index.Targets ty r ∨ index.Leads rest r :=
  List.exists_mem_cons_iff _ _ _

theorem leads_append {tys rest : List Ty} {r : RecordDecl} :
    index.Leads (tys ++ rest) r ↔ index.Leads tys r ∨ index.Leads rest r := by
  unfold Leads
  simp only [List.mem_append, or_and_right, exists_or]

/-! ## The search -/

/-- A record that has been met. -/
def Met (index : DeclIndex) (seen : List DeclId) (r : RecordDecl) : Prop :=
  ∃ id ∈ seen, index.record? id = some r

/-- What has been met declares no virtual method, and its base classes have been met or are still
to be looked at. -/
def Explored (index : DeclIndex) (seen : List DeclId) (work : List Ty) : Prop :=
  ∀ r, index.Met seen r → ¬ r.DeclaresVirtual ∧
    ∀ base, index.IsBase r base → index.Met seen base ∨ index.Leads work base

namespace Explored
variable {seen : List DeclId} {ty : Ty} {work rest : List Ty}

/-- From what has been met, a virtual method is reached only through what is to be looked at. -/
theorem escapes (h : index.Explored seen work) {r : RecordDecl} (hmet : index.Met seen r)
    (hvirtual : index.ReachesVirtual r) : ∃ r', index.Leads work r' ∧ index.ReachesVirtual r' := by
  obtain ⟨top, hderives, hvirtual⟩ := hvirtual
  induction hderives using Relation.ReflTransGen.head_induction_on with
  | refl => exact absurd hvirtual (h top hmet).1
  | @head r base hbase hrest ih =>
    rcases (h r hmet).2 base hbase with hmet' | hwork
    · exact ih hmet'
    · exact ⟨base, hwork, top, hrest, hvirtual⟩

theorem skip (h : index.Explored seen (ty :: rest))
    (hty : ∀ r, index.Targets ty r → index.Met seen r) : index.Explored seen rest := by
  intro r hr
  refine ⟨(h r hr).1, fun base hbase => ?_⟩
  rcases (h r hr).2 base hbase with hmet | hleads
  · exact Or.inl hmet
  · rcases leads_cons.1 hleads with htargets | hleads
    · exact Or.inl (hty base htargets)
    · exact Or.inr hleads

theorem leads_skip (h : index.Explored seen (ty :: rest))
    (hty : ∀ r, index.Targets ty r → index.Met seen r) :
    (∃ r, index.Leads rest r ∧ index.ReachesVirtual r) ↔
      ∃ r, index.Leads (ty :: rest) r ∧ index.ReachesVirtual r := by
  constructor
  · rintro ⟨r, hr, hvirtual⟩
    exact ⟨r, leads_cons.2 (Or.inr hr), hvirtual⟩
  · rintro ⟨r, hr, hvirtual⟩
    rcases leads_cons.1 hr with hr | hr
    · exact (h.skip hty).escapes (hty r hr) hvirtual
    · exact ⟨r, hr, hvirtual⟩

/-- A record without virtual methods is met, and its base classes are to be looked at. -/
theorem visit (h : index.Explored seen (ty :: rest)) {ref : DeclRef} {r : RecordDecl}
    (hty : ty.record? = some ref) (hr : index.record? ref.id = some r)
    (hplain : ¬ r.DeclaresVirtual) : index.Explored (ref.id :: seen) (r.baseTypes ++ rest) := by
  have hmet : ∀ {r'}, index.Met seen r' → index.Met (ref.id :: seen) r' :=
    fun ⟨id, hid, hr'⟩ => ⟨id, List.mem_cons_of_mem _ hid, hr'⟩
  rintro r' ⟨id, hid, hr'⟩
  rcases List.mem_cons.1 hid with rfl | hid
  · rw [hr] at hr'
    obtain rfl := Option.some.inj hr'
    exact ⟨hplain, fun base hbase => Or.inr (leads_append.2 (Or.inl hbase))⟩
  · obtain ⟨hplain', hbases⟩ := h r' ⟨id, hid, hr'⟩
    refine ⟨hplain', fun base hbase => ?_⟩
    rcases hbases base hbase with hbase | hbase
    · exact Or.inl (hmet hbase)
    · rcases leads_cons.1 hbase with htargets | hleads
      · exact Or.inl ⟨ref.id, List.mem_cons_self, (targets_iff hty).1 htargets⟩
      · exact Or.inr (leads_append.2 (Or.inr hleads))

end Explored

/-- The search answers with what can be reached from the types that are to be looked at. -/
theorem search_eq_true_iff (seen : List DeclId) (work : List Ty)
    (h : index.Explored seen work) :
    index.search seen work = true ↔ ∃ r, index.Leads work r ∧ index.ReachesVirtual r := by
  fun_induction search index seen work with
  | case1 seen =>
    constructor
    · exact fun hfalse => absurd hfalse Bool.false_ne_true
    · rintro ⟨r, ⟨ty, hty, -⟩, -⟩
      exact absurd hty List.not_mem_nil
  | case2 seen ty rest hnone ih =>
    have hty : ∀ r, index.Targets ty r → index.Met seen r :=
      fun r hr => absurd hr (not_targets hnone)
    exact (ih (h.skip hty)).trans (h.leads_skip hty)
  | case3 seen ty rest ref hsome hseen ih =>
    have hty : ∀ r, index.Targets ty r → index.Met seen r :=
      fun r hr => ⟨ref.id, List.contains_iff_mem.1 hseen, (targets_iff hsome).1 hr⟩
    exact (ih (h.skip hty)).trans (h.leads_skip hty)
  | case4 seen ty rest ref hsome _ hnone ih =>
    have hty : ∀ r, index.Targets ty r → index.Met seen r := by
      intro r hr
      rw [targets_iff hsome, hnone] at hr
      cases hr
    exact (ih (h.skip hty)).trans (h.leads_skip hty)
  | case5 seen ty rest ref hsome _ r hrecord ih =>
    have htargets : ∀ r', index.Targets ty r' ↔ r' = r := by
      intro r'
      rw [targets_iff hsome, hrecord, Option.some_inj]
      exact eq_comm
    simp only [leads_cons, htargets, or_and_right, exists_or, exists_eq_left]
    rw [Bool.or_eq_true, RecordDecl.declaresVirtual_iff]
    by_cases hvirtual : r.DeclaresVirtual
    · have hreaches : index.ReachesVirtual r := reachesVirtual_iff.2 (Or.inl hvirtual)
      exact iff_of_true (Or.inl hvirtual) (Or.inl hreaches)
    · rw [ih (h.visit hsome hrecord hvirtual), reachesVirtual_iff]
      simp only [hvirtual, false_or, leads_append, or_and_right, exists_or]
      rfl

theorem isPolymorphic_iff {r : RecordDecl} :
    index.isPolymorphic r = true ↔ index.ReachesVirtual r := by
  have hstart : index.Explored [] r.baseTypes := by
    rintro r' ⟨id, hid, -⟩
    exact absurd hid List.not_mem_nil
  unfold isPolymorphic
  rw [Bool.or_eq_true, search_eq_true_iff [] r.baseTypes hstart, RecordDecl.declaresVirtual_iff,
    reachesVirtual_iff]
  rfl

end DeclIndex

open Entry (additionAll FitsAll placementsAll WrittenIn)

/-! ## The keyword of a record -/

/-- Behind its linkage and its attributes a record is declared by a keyword and its name. -/
def RecordDecl.DeclaredAs (env : EmitEnv) (topLevel : Bool) (r : RecordDecl)
    (shape : RecordShape) : Prop :=
  ∃ rest, r.frontCode env topLevel = env.opening topLevel r.head.context ++
    (if r.info.complete then r.sizeLines.map .line else []) ++
    [.line (shape.keyword ++ " " ++ env.names.declName r.head ++ rest)] ++
    (if r.info.complete then [.line "\x7b", .indent] ++
      (r.baseLines env (env.index.isPolymorphic r)).map .line else [])

theorem RecordDecl.declaredAs_choose {env : EmitEnv} {r : RecordDecl} (topLevel : Bool)
    (h : r.info.complete = true) :
    r.DeclaredAs env topLevel (.choose r.info.tag (env.index.isPolymorphic r)) := by
  have hheader : ∃ rest, r.headerText env = (RecordShape.choose r.info.tag
      (env.index.isPolymorphic r)).keyword ++ " " ++ env.names.declName r.head ++ rest := by
    unfold headerText header
    simp only [Printed.text_append, Printed.text_ofText, String.append_assoc]
    exact ⟨_, rfl⟩
  obtain ⟨rest, hrest⟩ := hheader
  refine ⟨rest, ?_⟩
  unfold frontCode openingStrokes
  rw [hrest, h]
  simp

theorem RecordDecl.declaredAs_forward {env : EmitEnv} {r : RecordDecl} (topLevel : Bool)
    (h : r.info.complete = false) : r.DeclaredAs env topLevel .struct := by
  refine ⟨";", ?_⟩
  unfold frontCode
  rw [h]
  simp [RecordShape.keyword, String.append_assoc]

/-- The shape of a record by what can be reached from it. -/
theorem RecordShape.choose_iff {index : DeclIndex} (r : RecordDecl) :
    let shape := choose r.info.tag (index.isPolymorphic r)
    (shape = .struct ↔ ¬ index.ReachesVirtual r) ∧
    (shape = .union ↔ index.ReachesVirtual r ∧ r.info.tag = .union) ∧
    (shape = .class_ ↔ index.ReachesVirtual r ∧ r.info.tag ≠ .union) := by
  intro shape
  rw [← DeclIndex.isPolymorphic_iff]
  unfold shape choose
  cases index.isPolymorphic r with
  | true => by_cases htag : r.info.tag = .union <;> simp [htag]
  | false => simp

/-- A record is polymorphic exactly if a virtual method can be reached through base classes, and
then so is every record that derives from it.  A complete record that is written is declared as a
struct if none can be reached, and if one can, as a union if it is one and as a class otherwise; a
forward declaration is that of a struct. -/
theorem TranslationUnit.keyword_iff (unit : TranslationUnit) (options : EmitOptions) :
    let env := EmitEnv.ofUnit unit options .strings
    (∀ r : RecordDecl, env.index.isPolymorphic r = true ↔ env.index.ReachesVirtual r) ∧
    (∀ r base : RecordDecl, env.index.Derives r base → env.index.isPolymorphic base = true →
      env.index.isPolymorphic r = true) ∧
    ∀ text, unit.emit options = .ok text → ∃ s entries,
      text = EmitState.finish s ∧ FitsAll env none entries ∧
      s.script.toList = (EmitState.start options).script.toList ++
        (additionAll env none entries).code ∧
      ∀ p ∈ placementsAll none none entries,
        WrittenIn env (additionAll env none entries).code p ∧
        (p.record.info.complete = false → p.record.DeclaredAs env p.scope.isNone .struct) ∧
        (p.record.info.complete = true → ∃ shape,
          p.record.DeclaredAs env p.scope.isNone shape ∧
          (shape = .struct ↔ ¬ env.index.ReachesVirtual p.record) ∧
          (shape = .union ↔ env.index.ReachesVirtual p.record ∧ p.record.info.tag = .union) ∧
          (shape = .class_ ↔ env.index.ReachesVirtual p.record ∧ p.record.info.tag ≠ .union)) := by
  intro env
  refine ⟨fun r => DeclIndex.isPolymorphic_iff, fun r base hbase hpolymorphic => ?_,
    fun text htext => ?_⟩
  · rw [DeclIndex.isPolymorphic_iff] at hpolymorphic ⊢
    exact hpolymorphic.of_derives hbase
  · obtain ⟨s, entries, -, hfinish, hunit⟩ := consists_of_emit htext
    refine ⟨s, entries, hfinish, hunit.fits, hunit.code,
      fun p hp => ⟨Entry.written_placementsAll none none entries hp, ?_, ?_⟩⟩
    · exact RecordDecl.declaredAs_forward _
    · exact fun hcomplete => ⟨_, RecordDecl.declaredAs_choose _ hcomplete,
        RecordShape.choose_iff p.record⟩

/-- A class with a virtual method. -/
def shapeRecord : RecordDecl :=
  ⟨{ id := 1, name := some "Shape" }, { tag := .class_ }, [],
    [.function { id := 2, name := some "run" }
      { returnType := .int, method := some { isVirtual := true } }]⟩

/-- A class that derives from it, of which there is a forward declaration only. -/
def circleRecord : RecordDecl :=
  ⟨{ id := 3, name := some "Circle" },
    { tag := .class_, complete := false, bases := [{ ty := .record ⟨1, "Shape"⟩ }] }, [], []⟩

def forwardUnit : TranslationUnit := ⟨[⟨"shape.h", [shapeRecord.toDecl, circleRecord.toDecl]⟩]⟩

/-- Not every record from which a virtual method can be reached is declared as a class or union. -/
theorem forwardUnit_struct :
    circleRecord.toDecl ∈ forwardUnit.walk ∧
    (DeclIndex.ofUnit forwardUnit).ReachesVirtual circleRecord ∧
    forwardUnit.emit { preamble := false } = .ok (
      "\n// ------ shape.h\n\nextern(C++)\nclass Shape\n\x7b\n    private int run();\n\x7d\n\n" ++
      "extern(C++)\nstruct Circle;\n\n") := by
  have htext : forwardUnit.emit { preamble := false } =
      .ok (forwardUnit.write { preamble := false } (.start { preamble := false })).2.text :=
    TranslationUnit.emit_eq_text rfl rfl
  have hbase : (DeclIndex.ofUnit forwardUnit).IsBase circleRecord shapeRecord :=
    ⟨_, List.mem_cons_self, ⟨1, "Shape"⟩, .record _, rfl⟩
  have hvirtual : shapeRecord.DeclaresVirtual :=
    ⟨_, _, _, List.mem_cons_self, rfl, Or.inl rfl⟩
  refine ⟨.tail _ (.tail _ (.head _)), ⟨shapeRecord, .single hbase, hvirtual⟩, ?_⟩
  rw [htext]
  exact congrArg _ (by decide +kernel)

end DBindings
