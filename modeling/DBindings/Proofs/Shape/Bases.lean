import Mathlib
import DBindings.Proofs.Document.Kept
import DBindings.Proofs.Shape.Hierarchy

/-!
# Base classes in the header and among the members

D structs inherit from nothing.  A base class is written once, either in the header or as a member
that stands for it, and a record of the unit is inherited exactly if a virtual method can be reached
from it.  A type that names no record is always inherited, so a struct with such a base class has a
header list all the same.

* `DeclIndex.Heads`                what allows a base class to stand in the header;
* `DeclIndex.Divided`              base classes in the header and among the members, in order;
* `RecordDecl.HasBases`            how they are written;
* `TranslationUnit.bases_divided`  the base classes of every record that is written.
-/

namespace DBindings

namespace DeclIndex
variable {index : DeclIndex} {r : RecordDecl}

/-- A base class of a record stands in the header. -/
inductive Heads (index : DeclIndex) (r : RecordDecl) : Ty → Prop where
  /-- a virtual method can be reached from it -/
  | polymorphic {ty : Ty} {base : RecordDecl} :
    index.Targets ty base → index.ReachesVirtual base → Heads index r ty
  /-- the unit does not define it, and a virtual method can be reached from the record itself -/
  | undefined {ty : Ty} {ref : DeclRef} :
    ty.Names ref → index.record? ref.id = none → index.ReachesVirtual r → Heads index r ty
  /-- it is no record -/
  | unnamed {ty : Ty} : (∀ ref, ¬ ty.Names ref) → Heads index r ty

theorem isInherited_iff {ty : Ty} :
    index.isInherited (index.isPolymorphic r) ty = true ↔ index.Heads r ty := by
  unfold isInherited
  cases hty : ty.record? with
  | none =>
    have hnames : ∀ ref, ¬ ty.Names ref := by
      intro ref href
      rw [Ty.record?_eq_some_iff.2 href] at hty
      cases hty
    exact iff_of_true rfl (.unnamed hnames)
  | some ref =>
    have hnames : ty.Names ref := Ty.record?_eq_some_iff.1 hty
    have heq : ∀ ref', ty.Names ref' → ref' = ref := fun ref' href' =>
      Option.some.inj ((Ty.record?_eq_some_iff.2 href').symm.trans hty)
    dsimp only
    cases hbase : index.record? ref.id with
    | some base =>
      rw [isPolymorphic_iff]
      constructor
      · exact fun hvirtual => .polymorphic ⟨ref, hnames, hbase⟩ hvirtual
      · rintro (⟨⟨ref', href', hbase'⟩, hvirtual⟩ | ⟨href', hnone, -⟩ | hunnamed)
        · rw [heq ref' href', hbase] at hbase'
          rwa [Option.some.inj hbase']
        · rw [heq _ href', hbase] at hnone
          cases hnone
        · exact absurd hnames (hunnamed ref)
    | none =>
      rw [isPolymorphic_iff]
      constructor
      · exact fun hvirtual => .undefined hnames hbase hvirtual
      · rintro (⟨⟨ref', href', hbase'⟩, -⟩ | ⟨-, -, hvirtual⟩ | hunnamed)
        · rw [heq ref' href', hbase] at hbase'
          cases hbase'
        · exact hvirtual
        · exact absurd hnames (hunnamed ref)

/-- A record of the unit stands in the header exactly if a virtual method can be reached from it. -/
theorem heads_iff_of_targets {ty : Ty} {base : RecordDecl} (h : index.Targets ty base) :
    index.Heads r ty ↔ index.ReachesVirtual base := by
  obtain ⟨ref, hnames, hbase⟩ := h
  rw [← isInherited_iff, ← isPolymorphic_iff]
  unfold isInherited
  rw [Ty.record?_eq_some_iff.2 hnames]
  dsimp only
  rw [hbase]

theorem heads_iff_of_struct {ty : Ty} (h : ¬ index.ReachesVirtual r) (hty : ty ∈ r.baseTypes) :
    index.Heads r ty ↔ ∀ ref, ¬ ty.Names ref := by
  constructor
  · rintro (⟨htargets, hvirtual⟩ | ⟨-, -, hvirtual⟩ | hunnamed)
    · exact absurd (hvirtual.of_derives (.single ⟨ty, hty, htargets⟩)) h
    · exact absurd hvirtual h
    · exact hunnamed
  · exact .unnamed

/-- The base classes of a record, those in its header, and those that become members.  Each one is
in one of the two lists, and both keep the order. -/
inductive Divided (index : DeclIndex) (r : RecordDecl) : List Ty → List Ty → List Ty → Prop where
  | nil : Divided index r [] [] []
  | header {ty : Ty} {tys inherited members : List Ty} : index.Heads r ty →
    Divided index r tys inherited members → Divided index r (ty :: tys) (ty :: inherited) members
  | member {ty : Ty} {tys inherited members : List Ty} : ¬ index.Heads r ty →
    Divided index r tys inherited members → Divided index r (ty :: tys) inherited (ty :: members)

theorem divided_filter (tys : List Ty) :
    index.Divided r tys (tys.filter (index.isInherited (index.isPolymorphic r)))
      (tys.filter (!index.isInherited (index.isPolymorphic r) ·)) := by
  induction tys with
  | nil => exact .nil
  | cons ty tys ih =>
    by_cases h : index.isInherited (index.isPolymorphic r) ty = true
    · rw [List.filter_cons_of_pos h, List.filter_cons_of_neg (by simpa using h)]
      exact .header (isInherited_iff.1 h) ih
    · rw [List.filter_cons_of_neg h, List.filter_cons_of_pos (by simpa using h)]
      exact .member (fun hheads => h (isInherited_iff.2 hheads)) ih

theorem Divided.inherited_eq_nil_iff {tys inherited members : List Ty}
    (h : index.Divided r tys inherited members) :
    inherited = [] ↔ ∀ ty ∈ tys, ¬ index.Heads r ty := by
  induction h with
  | nil => exact iff_of_true rfl fun _ hty => absurd hty List.not_mem_nil
  | header hheads _ _ =>
    exact iff_of_false (List.cons_ne_nil _ _) fun hall => hall _ List.mem_cons_self hheads
  | member hheads _ ih =>
    rw [ih, List.forall_mem_cons]
    exact (and_iff_right hheads).symm

end DeclIndex

/-! ## What is written -/

def EmitEnv.baseClause (env : EmitEnv) (inherited : List Ty) : String :=
  if inherited = [] then "" else " : " ++ commaSeparated (inherited.map env.render)

/-- A record is opened with these base classes in its header, and the others are its first members:
two lines for each, which count the members from zero. -/
def RecordDecl.HasBases (env : EmitEnv) (topLevel : Bool) (r : RecordDecl) (shape : RecordShape)
    (inherited members : List Ty) : Prop :=
  ∃ lines : List String,
    r.frontCode env topLevel = env.opening topLevel r.head.context ++ r.sizeLines.map .line ++
      openingStrokes (shape.keyword ++ " " ++ env.names.declName r.head ++
        (templateList env r).text ++ env.baseClause inherited) ++ lines.map .line ∧
    lines.length = 2 * members.length ∧
    ∀ k ty, members[k]? = some ty →
      lines[2 * k]? = some (env.render ty ++ " _b" ++ toString k ++ ";") ∧
      lines[2 * k + 1]? = some ("alias _b" ++ toString k ++ " this;")

/-- Two lines for each element of a list that is numbered. -/
theorem getElem?_flatMap_zipIdx {α β : Type} (f : α → Nat → β) (g : Nat → β) (xs : List α)
    (start : Nat) :
    let lines := (xs.zipIdx start).flatMap fun (x, i) => [f x i, g i]
    lines.length = 2 * xs.length ∧ ∀ k x, xs[k]? = some x →
      lines[2 * k]? = some (f x (start + k)) ∧ lines[2 * k + 1]? = some (g (start + k)) := by
  induction xs generalizing start with
  | nil => exact ⟨rfl, fun _ _ h => nomatch h⟩
  | cons y xs ih =>
    obtain ⟨hlength, hlines⟩ := ih (start + 1)
    refine ⟨?_, fun k x hx => ?_⟩
    · simp only [List.zipIdx_cons, List.flatMap_cons, List.length_append, List.length_cons,
        List.length_nil, hlength]
      omega
    · cases k with
      | zero =>
        rw [← Option.some.inj hx]
        exact ⟨rfl, rfl⟩
      | succ k =>
        have hrest := hlines k x hx
        rw [Nat.add_right_comm start 1 k] at hrest
        exact hrest

/-- The header of a complete record. -/
theorem RecordDecl.headerText_eq (env : EmitEnv) (r : RecordDecl) :
    r.headerText env = (RecordShape.choose r.info.tag (env.index.isPolymorphic r)).keyword ++
      " " ++ env.names.declName r.head ++ (templateList env r).text ++ env.baseClause
        (r.baseTypes.filter (env.index.isInherited (env.index.isPolymorphic r))) := by
  unfold headerText header inherited EmitEnv.baseClause
  simp only [Printed.text_append, Printed.text_ofText, List.isEmpty_iff, List.map_eq_nil_iff]

theorem RecordDecl.hasBases {env : EmitEnv} {r : RecordDecl} (topLevel : Bool)
    (h : r.info.complete = true) :
    r.HasBases env topLevel (.choose r.info.tag (env.index.isPolymorphic r))
      (r.baseTypes.filter (env.index.isInherited (env.index.isPolymorphic r)))
      (r.baseTypes.filter (!env.index.isInherited (env.index.isPolymorphic r) ·)) := by
  obtain ⟨hlength, hlines⟩ := getElem?_flatMap_zipIdx
    (fun ty i => ty ++ " _b" ++ toString i ++ ";") (fun i => "alias _b" ++ toString i ++ " this;")
    (r.flattened env (env.index.isPolymorphic r)) 0
  refine ⟨r.baseLines env (env.index.isPolymorphic r), ?_, ?_, fun k ty hty => ?_⟩
  · unfold frontCode
    rw [if_pos h, headerText_eq, List.append_assoc, List.append_assoc, List.append_assoc]
  · unfold baseLines
    rw [hlength]
    unfold flattened
    rw [List.length_map]
  · have hk : (r.flattened env (env.index.isPolymorphic r))[k]? = some (env.render ty) := by
      unfold flattened
      rw [List.getElem?_map, hty]
      rfl
    have hboth := hlines k (env.render ty) hk
    rwa [Nat.zero_add] at hboth

open Entry (additionAll FitsAll placementsAll WrittenIn)

/-- In a unit that is written, each base class of a complete record stands once and in order, in the
header or as a member with an alias, which are numbered from zero.  One that the unit defines stands
in the header exactly if a virtual method can be reached from it.  A struct has no list in its
header exactly if all its base classes name records. -/
theorem TranslationUnit.bases_divided (unit : TranslationUnit) (options : EmitOptions)
    {text : String} (h : unit.emit options = .ok text) :
    let env := EmitEnv.ofUnit unit options .strings
    ∃ s entries, text = EmitState.finish s ∧ FitsAll env none entries ∧
      s.script.toList = (EmitState.start options).script.toList ++
        (additionAll env none entries).code ∧
      ∀ p ∈ placementsAll none none entries, p.record.info.complete = true →
        WrittenIn env (additionAll env none entries).code p ∧
        (∀ ty base, env.index.Targets ty base →
          (env.index.Heads p.record ty ↔ env.index.ReachesVirtual base)) ∧
        ∃ shape inherited members,
          env.index.Divided p.record p.record.baseTypes inherited members ∧
          p.record.HasBases env p.scope.isNone shape inherited members ∧
          (shape = .struct →
            (inherited = [] ↔ ∀ ty ∈ p.record.baseTypes, ∃ ref, ty.Names ref)) := by
  intro env
  obtain ⟨s, entries, -, htext, hunit⟩ := consists_of_emit h
  refine ⟨s, entries, htext, hunit.fits, hunit.code, fun p hp hcomplete =>
    ⟨Entry.written_placementsAll none none entries hp,
      fun _ _ => DeclIndex.heads_iff_of_targets, _, _, _, DeclIndex.divided_filter _,
      RecordDecl.hasBases _ hcomplete, fun hstruct => ?_⟩⟩
  have hplain : ¬ env.index.ReachesVirtual p.record := (RecordShape.choose_iff p.record).1.1 hstruct
  rw [(DeclIndex.divided_filter p.record.baseTypes).inherited_eq_nil_iff]
  refine forall₂_congr fun ty hty => ?_
  rw [DeclIndex.heads_iff_of_struct hplain hty, not_forall_not]

/-- A struct with an instance of a template as its base class. -/
def stackUnit : TranslationUnit :=
  ⟨[⟨"stack.h", [.record { id := 1, name := some "Stack" }
    { tag := .struct, bases := [{ ty := .templateSpecialization "List" [.type .int] }] } [] []]⟩]⟩

/-- It has a list in its header. -/
theorem stackUnit_inherits :
    stackUnit.emit { preamble := false } = .ok (
      "\n// ------ stack.h\n\nextern(C++)\nstruct Stack : List!(int)\n\x7b\n\x7d\n\n") := by
  have htext : stackUnit.emit { preamble := false } =
      .ok (stackUnit.write { preamble := false } (.start { preamble := false })).2.text :=
    TranslationUnit.emit_eq_text rfl rfl
  rw [htext]
  exact congrArg _ (by cbv)

/-- A struct, and a class that derives from it, from a polymorphic one, and from an unknown one. -/
def discUnit : TranslationUnit :=
  ⟨[⟨"disc.h", [shapeRecord.toDecl,
    .record { id := 3, name := some "Point" } { tag := .struct } [] [],
    .record { id := 4, name := some "Disc" }
      { tag := .class_, bases := [{ ty := .record ⟨3, "Point"⟩ }, { ty := .record ⟨1, "Shape"⟩ },
        { ty := .record ⟨9, "Widget"⟩ }] } [] []]⟩]⟩

def discEnv : EmitEnv := .ofUnit discUnit { preamble := false } .strings

theorem discUnit_bases :
    ∃ text s entries, discUnit.emit { preamble := false } = .ok text ∧
      text = EmitState.finish s ∧ s.script.toList = (additionAll discEnv none entries).code ∧
      ∀ p ∈ placementsAll none none entries, p.record.info.complete = true →
        ∃ shape inherited members,
          discEnv.index.Divided p.record p.record.baseTypes inherited members ∧
          p.record.HasBases discEnv p.scope.isNone shape inherited members ∧
          (shape = .struct →
            (inherited = [] ↔ ∀ ty ∈ p.record.baseTypes, ∃ ref, ty.Names ref)) := by
  obtain ⟨s, entries, htext, -, hscript, hplaced⟩ :=
    discUnit.bases_divided { preamble := false } rfl
  exact ⟨_, s, entries, rfl, htext, hscript, fun p hp hcomplete => (hplaced p hp hcomplete).2.2⟩

end DBindings
