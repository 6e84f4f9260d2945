import DBindings.Operator

/-!
# Sugar around types

Qualifiers and typedefs may stand around a type, and around what it refers to, at every level.  They
make no difference to what the type refers to.

* `Ty.sugared`        a type below qualifiers and typedefs;
* `Ty.RefersTo`       one or more references around a record, with sugar at every level;
* `Ty.refersTo_iff`   these are the references to a record that are told apart in declarations.
-/

namespace DBindings

/-- What stands around a type without another type being meant. -/
inductive Sugar where
  | qualified (isConst : Bool)
  | typedef (name : String)
  deriving Repr, DecidableEq

def Sugar.wrap : Sugar → Ty → Ty
  | qualified isConst, ty => .qualified isConst ty
  | typedef name, ty => .typedef name ty

namespace Ty

/-- A type below sugar, the first of it outermost. -/
def sugared (layers : List Sugar) (ty : Ty) : Ty := layers.foldr Sugar.wrap ty

theorem desugar_sugared (layers : List Sugar) (ty : Ty) :
    (ty.sugared layers).desugar = ty.desugar := by
  induction layers with
  | nil => rfl
  | cons layer layers ih => cases layer <;> exact ih

theorem isReference_sugared (layers : List Sugar) (ty : Ty) :
    (ty.sugared layers).isReference = ty.isReference := by
  unfold isReference
  rw [desugar_sugared]

theorem record?_sugared (layers : List Sugar) (ty : Ty) :
    (ty.sugared layers).record? = ty.record? := by
  induction layers with
  | nil => rfl
  | cons layer layers ih => cases layer <;> exact ih

theorem refersTo_sugared (layers : List Sugar) (ty : Ty) (id : DeclId) :
    (ty.sugared layers).refersTo id = ty.refersTo id := by
  unfold refersTo
  rw [isReference_sugared, record?_sugared]

/-- One or more references around a record, with sugar at every level. -/
inductive RefersTo (id : DeclId) : Ty → Prop
  | one (outer inner : List Sugar) (rvalue : Bool) {ref : DeclRef} (h : ref.id = id) :
    RefersTo id (sugared outer (.reference (sugared inner (.record ref)) rvalue))
  | more (outer : List Sugar) (rvalue : Bool) {ty : Ty} (h : RefersTo id ty) :
    RefersTo id (sugared outer (.reference ty rvalue))

theorem RefersTo.wrap {id : DeclId} {ty : Ty} (h : ty.RefersTo id) (layer : Sugar) :
    (layer.wrap ty).RefersTo id := by
  cases h with
  | one outer inner rvalue h => exact .one (layer :: outer) inner rvalue h
  | more outer rvalue h => exact .more (layer :: outer) rvalue h

theorem named_or_refersTo {ref : DeclRef} : (ty : Ty) → ty.record? = some ref →
    (∃ layers, ty = sugared layers (.record ref)) ∨ ty.RefersTo ref.id
  | .record _, h => Or.inl ⟨[], by rw [Option.some.inj h]; rfl⟩
  | .reference inner rvalue, h => by
    rcases named_or_refersTo inner h with ⟨layers, rfl⟩ | h
    · exact Or.inr (.one [] layers rvalue rfl)
    · exact Or.inr (.more [] rvalue h)
  | .qualified isConst inner, h => by
    rcases named_or_refersTo inner h with ⟨layers, rfl⟩ | h
    · exact Or.inl ⟨.qualified isConst :: layers, rfl⟩
    · exact Or.inr (h.wrap (.qualified isConst))
  | .typedef name underlying, h => by
    rcases named_or_refersTo underlying h with ⟨layers, rfl⟩ | h
    · exact Or.inl ⟨.typedef name :: layers, rfl⟩
    · exact Or.inr (h.wrap (.typedef name))
  | .builtin _, h | .pointer _, h | .constantArray _ _, h | .array _, h | .function _ _ _, h
  | .enum _, h | .templateSpecialization _ _, h | .templateParam _, h | .dependent _, h => nomatch h

theorem RefersTo.record? {id : DeclId} {ty : Ty} (h : ty.RefersTo id) :
    ∃ ref, ty.record? = some ref ∧ ref.id = id := by
  induction h with
  | @one outer inner rvalue ref h =>
    refine ⟨ref, ?_, h⟩
    rw [record?_sugared]
    exact record?_sugared inner _
  | more outer rvalue _ ih =>
    rw [record?_sugared]
    exact ih

theorem RefersTo.isReference {id : DeclId} {ty : Ty} (h : ty.RefersTo id) :
    ty.isReference = true := by
  cases h with
  | one outer _ _ _ | more outer _ _ =>
    rw [isReference_sugared]
    rfl

/-- A reference to a record is one or more references around it, under any sugar. -/
theorem refersTo_iff {ty : Ty} {id : DeclId} : ty.refersTo id = true ↔ ty.RefersTo id := by
  constructor
  · intro h
    obtain ⟨hreference, h⟩ := Bool.and_eq_true_iff.1 h
    cases hrecord : ty.record? with
    | none =>
      rw [hrecord] at h
      exact nomatch h
    | some ref =>
      rw [hrecord] at h
      rw [← eq_of_beq h]
      rcases named_or_refersTo ty hrecord with ⟨layers, rfl⟩ | hrefers
      · rw [isReference_sugared] at hreference
        exact nomatch hreference
      · exact hrefers
  · intro h
    obtain ⟨ref, hrecord, hid⟩ := h.record?
    unfold refersTo
    rw [h.isReference, hrecord]
    exact beq_iff_eq.2 hid

end Ty

end DBindings
