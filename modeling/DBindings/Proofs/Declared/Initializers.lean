import DBindings.Proofs.Run.Acts

/-!
# Initializers of variables

A variable outside functions and one in a block are written by different rules.  The one in a block
heeds how it is initialized: a construction without arguments is left out, and arguments in
parentheses are those of its type.

* `Variable.declared`             a variable outside functions, without linkage and storage;
* `Emit.exec_variable`            the line that is written for it;
* `LocalVar.text_print_plain`     the text of a variable in a block that is no reference;
* `Variable.declared_alike_iff`   the two are written alike exactly if there is no initializer, or
                                  one that is no call;
* `emptyOrigin_assigned`          a variable that is given nothing.
-/

namespace DBindings

namespace Variable

def storageText (env : EmitEnv) (head : DeclHead) (v : Variable) : String :=
  env.functionLinkage head.context v.ty ++ match v.storage with
    | .external => "extern "
    | .static => "__gshared static "
    | .none => ""

/-- The value of a variable outside functions. -/
def valueText (cx : PrintContext) (v : Variable) : String :=
  match v.init with
  | some init => " = " ++ (init.print cx).text
  | none => ""

/-- Type, name and value as they are written outside functions. -/
def declared (env : EmitEnv) (head : DeclHead) (v : Variable) : String :=
  env.render v.ty ++ " " ++ Identifier.sanitize (head.name.getD "") ++ v.valueText env.print

/-- The variable in a block. -/
def inBlock (head : DeclHead) (v : Variable) : LocalVar :=
  { name := head.name.getD "", ty := v.ty, init := v.init, style := v.style }

theorem text_variableCode (env : EmitEnv) (head : DeclHead) {v : Variable}
    (hpointer : v.ty.isPointer = false) :
    (Emit.variableCode env head v).text = v.storageText env head ++ v.declared env head ++ ";" := by
  unfold Emit.variableCode storageText declared valueText
  cases v.init with
  | none =>
    cases v.storage <;> simp only [Printed.text_append, Printed.text_ofText, String.append_assoc]
  | some init =>
    rw [hpointer]
    cases v.storage
    all_goals
      simp only [Printed.text_append, Printed.text_ofText, String.append_assoc]
      rfl

end Variable

/-! ## What is written outside functions -/

namespace Emit

theorem exec_accept (env : EmitEnv) (head : DeclHead) (s : EmitState) :
    (accept env head).exec s =
      if env.isRelevant head.loc && !s.registered.contains head.id then
        (.ok true, s.register head.id)
      else (.ok false, s) := by
  unfold accept
  cases env.isRelevant head.loc with
  | false => rfl
  | true =>
    show (register head.id).exec s = _
    by_cases hregistered : head.id ∈ s.registered
    · rw [exec_register_of_mem hregistered, List.contains_iff_mem.2 hregistered]
      rfl
    · rw [exec_register_of_not_mem hregistered,
        eq_false_of_ne_true fun h => hregistered (List.contains_iff_mem.1 h)]
      rfl

/-- A variable that is under an input root and has not been registered is written on one line. -/
theorem exec_variable (env : EmitEnv) (head : DeclHead) (v : Variable) (s : EmitState) :
    (handle env (.variable_ (.var head v))).exec s =
      (.ok (), if env.isRelevant head.loc && !s.registered.contains head.id then
        ((s.register head.id).raise (variableCode env head v).requests).write
          [.line (variableCode env head v).text]
      else s) := by
  have hhandle : handle env (.variable_ (.var head v)) =
      accept env head >>= fun taken => if taken then variable_ env head v else pure () := rfl
  rw [hhandle, exec_bind, exec_accept]
  cases env.isRelevant head.loc && !s.registered.contains head.id <;> rfl

end Emit

/-! ## What is written in a block -/

/-- The value of a variable in a block: nothing for a construction without arguments, and arguments
in parentheses behind the type. -/
def LocalVar.valueText (cx : PrintContext) (v : LocalVar) : String :=
  match v.init with
  | none => ""
  | some init =>
    if v.isDefaultConstructed init then ""
    else match v.style with
      | .call => " = " ++ v.ty.render cx.names ++ "(" ++ (init.print cx).text ++ ")"
      | .c | .list => " = " ++ (init.print cx).text

theorem LocalVar.text_print_plain (cx : PrintContext) {v : LocalVar} (hstatic : v.isStatic = false)
    (href : v.ty.isReference = false) :
    (v.print cx).text =
      v.ty.render cx.names ++ " " ++ Identifier.sanitize v.name ++ v.valueText cx := by
  unfold print valueText
  simp only [hstatic, href, Bool.false_eq_true, if_false, String.empty_append]
  cases v.init with
  | none => exact (Printed.text_ofText _).trans String.append_empty.symm
  | some init =>
    dsimp only
    split
    · exact (Printed.text_ofText _).trans String.append_empty.symm
    · cases v.style <;>
        simp only [Printed.text_append, Printed.text_ofText, String.append_assoc]

namespace Variable

/-- The value that is written outside functions is that of a block, unless it is that of a call. -/
theorem valueText_eq_iff (cx : PrintContext) (head : DeclHead) (v : Variable) :
    v.valueText cx = (v.inBlock head).valueText cx ↔ v.init = none ∨ v.style ≠ .call := by
  unfold valueText LocalVar.valueText inBlock
  cases hinit : v.init with
  | none => exact iff_of_true rfl (Or.inl rfl)
  | some init =>
    dsimp only
    cases hstyle : v.style with
    | c | list => exact iff_of_true rfl (Or.inr (by decide))
    | call =>
      refine iff_of_false ?_ (by simp)
      split
      · intro h
        exact absurd (String.append_eq_empty_iff.1 h).1 (by decide)
      · intro h
        have hlength := congrArg String.length h
        simp only [String.length_append] at hlength
        have hparens : "(".length = 1 := rfl
        omega

/-- A variable outside functions that is no pointer and no reference is written on one line behind
its linkage and storage.  Type, name and value are those of the variable in a block exactly if it
has no initializer, or one that is no call. -/
theorem declared_alike_iff (env : EmitEnv) (head : DeclHead) {v : Variable}
    (hpointer : v.ty.isPointer = false) (href : v.ty.isReference = false) :
    (∀ s : EmitState, (Emit.handle env (.variable_ (.var head v))).exec s =
      (.ok (), if env.isRelevant head.loc && !s.registered.contains head.id then
        ((s.register head.id).raise (Emit.variableCode env head v).requests).write
          [.line (v.storageText env head ++ v.declared env head ++ ";")]
      else s)) ∧
    (v.declared env head = ((v.inBlock head).print env.print).text ↔
      v.init = none ∨ v.style ≠ .call) := by
  refine ⟨fun s => ?_, ?_⟩
  · rw [Emit.exec_variable, text_variableCode env head hpointer]
  · rw [LocalVar.text_print_plain env.print rfl href, ← valueText_eq_iff env.print head v]
    exact String.append_right_inj _

end Variable

/-- `Point origin(args);` -/
def origin (args : List Expr) : Variable where
  ty := .record ⟨9, "Point"⟩
  init := some (.construct (.record ⟨9, "Point"⟩) args false false)
  style := .call

/-- `Point origin = value;` is written alike in both places. -/
theorem copiedOrigin_declared :
    let env : EmitEnv := .ofUnit ⟨[]⟩ {} .strings
    let head : DeclHead := { id := 1, name := some "origin" }
    let v : Variable := { ty := .record ⟨9, "Point"⟩, init := some (.var "corner" .int) }
    v.ty.isPointer = false ∧ v.ty.isReference = false ∧
    v.declared env head = "Point origin = corner" ∧
    ((v.inBlock head).print env.print).text = "Point origin = corner" := by
  intro env head v
  have halike := (Variable.declared_alike_iff env head (v := v) rfl rfl).2.2 (Or.inr (by decide))
  have htext : v.declared env head = "Point origin = corner" := by decide +kernel
  exact ⟨rfl, rfl, htext, halike.symm.trans htext⟩

/-- Without arguments nothing is left behind the sign, and with arguments the type is missing. -/
theorem emptyOrigin_assigned :
    let env : EmitEnv := .ofUnit ⟨[]⟩ {} .strings
    let head : DeclHead := { id := 1, name := some "origin" }
    (Emit.variableCode env head (origin [])).text = "Point origin = ;" ∧
    (((origin []).inBlock head).print env.print).text = "Point origin" ∧
    (Emit.variableCode env head (origin [.int 1, .int 2])).text = "Point origin = 1, 2;" ∧
    (((origin [.int 1, .int 2]).inBlock head).print env.print).text = "Point origin = Point(1, 2)" ∧
    ¬ ∀ (env : EmitEnv) (head : DeclHead) (v : Variable),
      v.ty.isPointer = false → v.ty.isReference = false →
        v.declared env head = ((v.inBlock head).print env.print).text := by
  intro env head
  have hblock : (((origin []).inBlock head).print env.print).text = "Point origin" := by
    decide +kernel
  refine ⟨by decide +kernel, hblock, by decide +kernel, by decide +kernel, fun h => ?_⟩
  have hdeclared : (origin []).declared env head = "Point origin = " := by decide +kernel
  have halike := h env head (origin []) rfl rfl
  exact absurd (hdeclared.symm.trans (halike.trans hblock)) (by decide)

end DBindings
