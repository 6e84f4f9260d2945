import DBindings.Proofs.Types.Sugar

/-!
# Assignments of a record

D provides the assignment of a record to itself, so that one is left out.  Whether an assignment is
this one, and how any other method is declared, does not depend on sugar around the types.

* `Function.sugared`                     a function with sugar around its types;
* `Function.isIdentityAssignment_iff`    which assignments are left out;
* `Function.declared_sugared`            what a method is declared as, whatever the sugar;
* `Function.classify_assignment`         how assignments are declared.
-/

namespace DBindings

/-- A conversion yields its target below sugar. -/
def MethodRole.sugared (layers : List Sugar) : MethodRole → MethodRole
  | conversion target => conversion (target.sugared layers)
  | role => role

/-- How a method is declared, apart from its compile-time parameter. -/
def MethodClass.declared (cls : MethodClass) : String × Bool := (cls.name, cls.directBinding)

namespace Function

/-- A function with sugar around the type of each parameter, by its position, around the result and
around the target of a conversion. -/
def sugared (f : Function) (params : Nat → List Sugar) (result target : List Sugar) : Function :=
  { f with
    params := f.params.mapIdx fun i p => { p with ty := p.ty.sugared (params i) }
    returnType := f.returnType.sugared result
    method := f.method.map fun info => { info with role := info.role.sugared target } }

variable {f : Function} {info : MethodInfo}

theorem classify_normal (hmethod : f.method = some info) (hrole : info.role = .normal)
    (names : NameTable) (name : String) (id : DeclId) :
    f.classify names name id = match info.operator with
      | some op => if f.isIdentityAssignment id then none else some (op.classify f.params.length)
      | none => some (.plain (Identifier.sanitize name)) := by
  unfold classify
  cases hoperator : info.operator <;> simp only [hmethod, hrole, hoperator]

theorem classify_ne_none (hmethod : f.method = some info) (hrole : info.role ≠ .normal)
    (names : NameTable) (name : String) (id : DeclId) : f.classify names name id ≠ none := by
  unfold classify
  rw [hmethod]
  dsimp only
  split
  · exact Option.some_ne_none _
  · exact Option.some_ne_none _
  · exact Option.some_ne_none _
  · next h => exact absurd h hrole

/-! ## The assignment that is left out -/

/-- The assignment of a record to itself takes a reference to the record and returns one. -/
theorem isIdentityAssignment_iff (hmethod : f.method = some info) {id : DeclId} :
    f.isIdentityAssignment id = true ↔ info.operator = some .equal ∧
      ∃ param, f.params = [param] ∧ param.ty.RefersTo id ∧ f.returnType.RefersTo id := by
  unfold isIdentityAssignment
  rw [hmethod]
  match f.params with
  | [] => exact iff_of_false Bool.false_ne_true fun ⟨_, _, h, _⟩ => nomatch h
  | _ :: _ :: _ => exact iff_of_false Bool.false_ne_true fun ⟨_, _, h, _⟩ => nomatch h
  | [param] =>
    have hparam : (∃ p, [param] = [p] ∧ p.ty.RefersTo id ∧ f.returnType.RefersTo id) ↔
        param.ty.RefersTo id ∧ f.returnType.RefersTo id := by
      refine ⟨?_, fun h => ⟨param, rfl, h⟩⟩
      rintro ⟨p, hp, h⟩
      rwa [List.head_eq_of_cons_eq hp]
    rw [hparam, ← Ty.refersTo_iff, ← Ty.refersTo_iff]
    simp only [Bool.and_eq_true, beq_iff_eq, and_assoc]

theorem isIdentityAssignment_sugared (f : Function) (params : Nat → List Sugar)
    (result target : List Sugar) (id : DeclId) :
    (f.sugared params result target).isIdentityAssignment id = f.isIdentityAssignment id := by
  unfold isIdentityAssignment sugared
  dsimp only
  rw [Ty.refersTo_sugared]
  cases f.method with
  | none => rfl
  | some info =>
    match f.params with
    | [] => rfl
    | [param] =>
      rw [List.mapIdx_cons]
      exact congrArg (_ && · && _) (Ty.refersTo_sugared (params 0) param.ty id)
    | first :: second :: rest =>
      rw [List.mapIdx_cons, List.mapIdx_cons]
      rfl

/-! ## Sugar around the types of a method -/

/-- Sugar changes neither the name of a method nor its binding, and leaves out no other method. -/
theorem declared_sugared (f : Function) (params : Nat → List Sugar) (result target : List Sugar)
    (names : NameTable) (name : String) (id : DeclId) :
    ((f.sugared params result target).classify names name id).map (·.declared) =
      (f.classify names name id).map (·.declared) := by
  have hidentity := isIdentityAssignment_sugared f params result target id
  have hlength : (f.sugared params result target).params.length = f.params.length :=
    List.length_mapIdx
  unfold classify
  rw [hidentity, hlength]
  unfold sugared
  dsimp only
  cases f.method with
  | none => rfl
  | some info =>
    dsimp only [Option.map_some]
    cases info.role with
    | normal | constructor _ _ | destructor | conversion _ => rfl

/-- A method is left out exactly if it is an assignment with one parameter which, like the result,
refers to the record; any other assignment is a plain one.  Sugar around the types of a method
changes nothing but its compile-time parameter. -/
theorem classify_assignment (hmethod : f.method = some info) (names : NameTable) (name : String)
    (id : DeclId) :
    (f.classify names name id = none ↔ info.role = .normal ∧ info.operator = some .equal ∧
      ∃ param, f.params = [param] ∧ param.ty.RefersTo id ∧ f.returnType.RefersTo id) ∧
    (info.role = .normal → info.operator = some .equal → f.classify names name id ≠ none →
      f.classify names name id = some ⟨"opAssign", none, false⟩) ∧
    ∀ (params : Nat → List Sugar) (result target : List Sugar),
      ((f.sugared params result target).classify names name id).map (·.declared) =
        (f.classify names name id).map (·.declared) := by
  have hnormal := fun hrole => classify_normal hmethod hrole names name id
  refine ⟨?_, fun hrole hoperator hsome => ?_,
    fun params result target => declared_sugared f params result target names name id⟩
  · by_cases hrole : info.role = .normal
    · rw [hnormal hrole, and_iff_right hrole, ← isIdentityAssignment_iff hmethod]
      cases hoperator : info.operator with
      | none =>
        refine iff_of_false (Option.some_ne_none _) fun h => ?_
        rw [((isIdentityAssignment_iff hmethod).1 h).1] at hoperator
        exact nomatch hoperator
      | some op => simp
    · exact iff_of_false (classify_ne_none hmethod hrole names name id) fun h => hrole h.1
  · rw [hnormal hrole, hoperator] at hsome ⊢
    dsimp only at hsome ⊢
    by_cases hidentity : f.isIdentityAssignment id = true
    · rw [if_pos hidentity] at hsome
      exact absurd rfl hsome
    · rw [if_neg hidentity]
      rfl

/-- A record is assigned to itself through a typedef of a constant reference: to any other record
this is a plain assignment, also with a further qualifier. -/
theorem classify_assignment_point :
    let point : Ty := .record ⟨1, "Point"⟩
    let method : MethodInfo := { operator := some .equal }
    let given := "PointRef"
    let layer : Sugar := .typedef given
    let f : Function := {
      returnType := point.lref, params := [{ ty := .typedef given point.constRef }],
      method := some method }
    let qualified := f.sugared (fun _ => [.qualified false]) [layer] []
    f.method = some method ∧ f.classify {} "operator=" 1 = none ∧
      (qualified.classify {} "operator=" 1).map (·.declared) = none ∧
      f.classify {} "operator=" 2 = some ⟨"opAssign", none, false⟩ := by
  intro point method given layer f qualified
  obtain ⟨hnone, -, hsugared⟩ := classify_assignment (f := f) rfl {} "operator=" 1
  obtain ⟨-, hplain, -⟩ := classify_assignment (f := f) rfl {} "operator=" 2
  have hparam : (Ty.typedef given point.constRef).RefersTo 1 :=
    .one [layer] [.qualified true] false rfl
  have hself : f.classify {} "operator=" 1 = none :=
    hnone.2 ⟨rfl, rfl, _, rfl, hparam, .one [] [] false rfl⟩
  refine ⟨rfl, hself, ?_, hplain rfl rfl (by decide)⟩
  rw [hsugared, hself]
  rfl

end Function

end DBindings
