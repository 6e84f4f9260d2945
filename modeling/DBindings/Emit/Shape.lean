import DBindings.Naming.Index

/-!
# Shapes of records

A record without virtual methods in its hierarchy is a struct in D; another one is a class, or a
union if it was one.

* `DeclIndex.isPolymorphic`   some record that can be reached through base classes declares a
  virtual method.  The search marks the records that it has met, so it ends on every graph of base
  classes.
-/

namespace DBindings

/-- The keyword of a record in D. -/
inductive RecordShape where
  | struct | class_ | union
  deriving Repr, DecidableEq, Inhabited

namespace RecordShape

def choose (tag : RecordTag) (polymorphic : Bool) : RecordShape :=
  if polymorphic then (if tag = .union then union else class_) else struct

def keyword : RecordShape → String
  | struct => "struct"
  | class_ => "class"
  | union => "union"

end RecordShape

/-- A virtual or pure member function. -/
def Decl.isVirtualMethod (d : Decl) : Bool :=
  match d.function? with
  | some f => f.method.any fun info => info.isVirtual || info.isPure
  | none => false

/-- The record itself declares a virtual method. -/
def RecordDecl.declaresVirtual (r : RecordDecl) : Bool := r.methods.any Decl.isVirtualMethod

def RecordDecl.baseTypes (r : RecordDecl) : List Ty := r.info.bases.map (·.ty)

namespace DeclIndex

/-- The numbers that a search has not met. -/
def unseen (index : DeclIndex) (seen : List DeclId) : List DeclId :=
  (index.decls.map Decl.id).filter (!seen.contains ·)

theorem mem_of_record? {index : DeclIndex} {id : DeclId} {r : RecordDecl}
    (h : index.record? id = some r) : id ∈ index.decls.map Decl.id := by
  obtain ⟨d, hd, _⟩ := Option.bind_eq_some_iff.1 h
  have hmem := List.mem_of_find?_eq_some hd
  have hid : d.id = id := by simpa using List.find?_some hd
  exact List.mem_map.2 ⟨d, hmem, hid⟩

theorem unseen_cons (index : DeclIndex) (id : DeclId) (seen : List DeclId) :
    index.unseen (id :: seen) = (index.unseen seen).filter (· != id) := by
  simp only [unseen, List.filter_filter]
  congr 1
  funext x
  simp [Bool.not_or]
  rfl

/-- The base classes of the record with a number. -/
def basesOf (index : DeclIndex) (id : DeclId) : List Ty :=
  match index.record? id with
  | some r => r.baseTypes
  | none => []

/-- The base classes of records that a search has not met. -/
def unseenBases (index : DeclIndex) (seen : List DeclId) : List Ty :=
  (index.unseen seen).flatMap index.basesOf

theorem length_flatMap_filter_add_le (f : DeclId → List Ty) {id : DeclId} {ids : List DeclId}
    (h : id ∈ ids) :
    ((ids.filter (· != id)).flatMap f).length + (f id).length ≤ (ids.flatMap f).length := by
  have hfilter : ∀ l : List DeclId,
      ((l.filter (· != id)).flatMap f).length ≤ (l.flatMap f).length := by
    intro l
    induction l with
    | nil => exact Nat.le_refl _
    | cons x l ih =>
      rw [List.filter_cons, List.flatMap_cons, List.length_append]
      split
      · rw [List.flatMap_cons, List.length_append]
        exact Nat.add_le_add_left ih _
      · exact Nat.le_trans ih (Nat.le_add_left _ _)
  obtain ⟨front, back, rfl⟩ := List.append_of_mem h
  have hfront := hfilter front
  have hback := hfilter back
  rw [List.filter_append, List.filter_cons_of_neg (by simp), List.flatMap_append,
    List.flatMap_append, List.flatMap_cons, List.length_append, List.length_append,
    List.length_append]
  omega

theorem length_unseenBases_cons_add_le {index : DeclIndex} {id : DeclId} {r : RecordDecl}
    {seen : List DeclId} (h : index.record? id = some r) (hs : seen.contains id = false) :
    (index.unseenBases (id :: seen)).length + r.baseTypes.length ≤
      (index.unseenBases seen).length := by
  have hbases : index.basesOf id = r.baseTypes := by
    unfold basesOf
    rw [h]
  have hmem : id ∈ index.unseen seen :=
    List.mem_filter.2 ⟨mem_of_record? h, by simpa using hs⟩
  unfold unseenBases
  rw [unseen_cons, ← hbases]
  exact length_flatMap_filter_add_le index.basesOf hmem

/-- A search through base classes for a virtual method; `seen` are the records met before. -/
def search (index : DeclIndex) (seen : List DeclId) (work : List Ty) : Bool :=
  match work with
  | [] => false
  | ty :: rest =>
    match ty.record? with
    | none => search index seen rest
    | some ref =>
      if _hs : seen.contains ref.id = true then search index seen rest
      else match _h : index.record? ref.id with
        | none => search index seen rest
        | some r => r.declaresVirtual || search index (ref.id :: seen) (r.baseTypes ++ rest)
termination_by (index.unseenBases seen).length + work.length
decreasing_by
  · exact Nat.lt_succ_self _
  · exact Nat.lt_succ_self _
  · exact Nat.lt_succ_self _
  · have hle := length_unseenBases_cons_add_le _h (by simpa using _hs)
    rw [List.length_append, List.length_cons]
    omega

/-- The record or one of the records that it derives from declares a virtual method. -/
def isPolymorphic (index : DeclIndex) (r : RecordDecl) : Bool :=
  r.declaresVirtual || index.search [] r.baseTypes

/-- A base class stands in the header if it is polymorphic.  One that the unit does not define is
taken to be like the record itself, and one that is no record always stands there. -/
def isInherited (index : DeclIndex) (polymorphic : Bool) (base : Ty) : Bool :=
  match base.record? with
  | some ref =>
    match index.record? ref.id with
    | some r => index.isPolymorphic r
    | none => polymorphic
  | none => true

end DeclIndex

end DBindings
