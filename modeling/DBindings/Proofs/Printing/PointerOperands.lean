import DBindings.Proofs.Printing.ImplicitNodes

/-!
# Integers beside pointers

An integer literal on the right of a variable or member that is a pointer is written as a pointer.
That suits comparisons and assignments, but an offset has to stay an integer.

* `Expr.NamesPointer`          a variable or member that is a pointer;
* `Expr.text_binary_integer`   the text of the operation; the operator decides nothing else;
* `Expr.binary_integer_iff`    the literal is written as on its own exactly if the left operand is
                               no such variable or member, whatever the operator is;
* `pointerOffset_cast`         an offset that is cast to a pointer.
-/

namespace DBindings

/-- The operators that move a pointer by an offset. -/
def BinaryOp.movesPointer : BinaryOp → Bool
  | add | sub | addAssign | subAssign => true
  | _ => false

namespace Expr

/-- A variable or member of a pointer type, below any typedefs and qualifiers. -/
inductive NamesPointer : Expr → Ty → Prop
  | variable_ (name : String) {ty : Ty} (qualifier : Option Ty) (args : List TemplateArg)
    (hty : ty.isPointer = true) : NamesPointer (declRef name ty qualifier args) ty
  | member (base : Expr) {info : MemberInfo} (hty : info.ty.isPointer = true) :
    NamesPointer (member base info) info.ty

theorem pointerOperand?_eq_some_iff {e : Expr} {ty : Ty} :
    e.pointerOperand? = some ty ↔ e.NamesPointer ty := by
  constructor
  · intro h
    unfold pointerOperand? at h
    split at h
    · obtain ⟨hty, heq⟩ := Option.ite_none_right_eq_some.1 h
      exact Option.some.inj heq ▸ .variable_ _ _ _ hty
    · obtain ⟨hty, heq⟩ := Option.ite_none_right_eq_some.1 h
      exact Option.some.inj heq ▸ .member _ hty
    · exact nomatch h
  · rintro (⟨name, qualifier, args, hty⟩ | ⟨base, hty⟩)
    · exact if_pos hty
    · exact if_pos hty

theorem pointerOperand?_eq_none_iff {e : Expr} :
    e.pointerOperand? = none ↔ ∀ ty, ¬ e.NamesPointer ty := by
  rw [Option.eq_none_iff_forall_ne_some]
  exact forall_congr' fun ty => not_congr pointerOperand?_eq_some_iff

/-- How an integer on the right of an expression is written, if its own text is given. -/
def integerBeside (cx : PrintContext) (lhs : Expr) (value : Int) (own : String) : String :=
  match lhs.pointerOperand? with
  | some ty => if value = 0 then "null" else "cast(" ++ ty.render cx.names ++ ") " ++ own
  | none => own

section
variable {cx : PrintContext} {nodes : List ImplicitNode}

theorem text_binary_integer (op : BinaryOp) (lhs : Expr) (value : Int) (kind : Builtin) :
    let literal := (integerLiteral value kind).under nodes
    ((binary op lhs literal).print cx).text = (lhs.print cx).text ++ (" " ++ op.spelling ++ " ") ++
      integerBeside cx lhs value (literal.print cx).text := by
  intro literal
  have hliteral : literal.ignoreImplicit.integerValue? = some value := by
    rw [ignoreImplicit_under]
    rfl
  have hprint : (binary op lhs literal).print cx =
      binaryText cx op lhs literal (lhs.print cx) (literal.print cx) := rfl
  rw [hprint]
  unfold binaryText integerBeside
  rw [hliteral]
  simp only [Printed.text_append, Printed.text_ofText]
  rw [String.append_right_inj]
  cases lhs.pointerOperand? with
  | none => rfl
  | some ty =>
    dsimp only
    split
    · exact Printed.text_ofText _
    · simp only [Printed.text_append, Printed.text_ofText]

theorem text_integer_ne_null (hcx : cx.pointerReturn = false)
    (hnodes : ∀ n ∈ nodes, n.isNullCast = false) (kind : Builtin) :
    (((integerLiteral 0 kind).under nodes).print cx).text ≠ "null" := by
  obtain ⟨behind, hbehind⟩ := exists_text_under (e := integerLiteral 0 kind) hcx hnodes
  have hliteral : ((integerLiteral 0 kind).print cx).text = "0" ++ Literal.integerSuffix kind :=
    Printed.text_ofText _
  rw [hbehind, hliteral, String.append_assoc]
  intro h
  have hhead := congrArg (fun t => t.toList.head?) h
  rw [String.toList_append] at hhead
  exact absurd (Option.some.inj hhead) (by decide)

theorem integerBeside_eq_iff (hcx : cx.pointerReturn = false)
    (hnodes : ∀ n ∈ nodes, n.isNullCast = false) (lhs : Expr) (value : Int) (kind : Builtin) :
    let own := (((integerLiteral value kind).under nodes).print cx).text
    integerBeside cx lhs value own = own ↔ lhs.pointerOperand? = none := by
  intro own
  unfold integerBeside
  cases lhs.pointerOperand? with
  | none => exact iff_of_true rfl rfl
  | some ty =>
    refine iff_of_false ?_ nofun
    dsimp only
    split
    · next hzero =>
      subst hzero
      exact (text_integer_ne_null hcx hnodes kind).symm
    · rw [String.append_eq_right_iff]
      intro h
      exact absurd (String.append_eq_empty_iff.1 h).2 (by decide)

/-- An integer literal below implicit nodes is written in one way for all operators: on the right of
a variable or member that is a pointer as `null` or with a cast, and as on its own exactly if the
left operand is none. -/
theorem binary_integer_iff (hcx : cx.pointerReturn = false)
    (hnodes : ∀ n ∈ nodes, n.isNullCast = false) (lhs : Expr) (value : Int) (kind : Builtin) :
    let literal := (integerLiteral value kind).under nodes
    ∃ right,
      (∀ op, ((binary op lhs literal).print cx).text =
        (lhs.print cx).text ++ (" " ++ op.spelling ++ " ") ++ right) ∧
      (∀ ty, lhs.NamesPointer ty → right = if value = 0 then "null"
        else "cast(" ++ ty.render cx.names ++ ") " ++ (literal.print cx).text) ∧
      (right = (literal.print cx).text ↔ ∀ ty, ¬ lhs.NamesPointer ty) := by
  intro literal
  refine ⟨integerBeside cx lhs value (literal.print cx).text,
    fun op => text_binary_integer op lhs value kind, fun ty hty => ?_, ?_⟩
  · unfold integerBeside
    rw [pointerOperand?_eq_some_iff.2 hty]
  · rw [← pointerOperand?_eq_none_iff]
    exact integerBeside_eq_iff hcx hnodes lhs value kind

end

end Expr

/-- A constant pointer by the name of its typedef. -/
def cursorTy : Ty :=
  let name := "Cursor"
  .typedef name (.qualified true (.pointer .int))

def cursor : Expr := .var "p" cursorTy

/-- An address that a pointer is compared with. -/
theorem cursor_compared :
    let nodes : List ImplicitNode := [.cast .integralCast (.builtin .long)]
    let literal := (Expr.int 16).under nodes
    ({} : PrintContext).pointerReturn = false ∧ (∀ n ∈ nodes, n.isNullCast = false) ∧
    ((Expr.binary .ne cursor literal).print {}).text = "p != cast(Cursor) 16" := by
  intro nodes literal
  have hpointer : cursor.NamesPointer cursorTy := .variable_ _ _ _ rfl
  obtain ⟨right, htext, hright, -⟩ :=
    @Expr.binary_integer_iff {} nodes rfl (by decide) cursor 16 .int
  refine ⟨rfl, by decide, ?_⟩
  rw [show literal = (Expr.integerLiteral 16 .int).under nodes from rfl, htext .ne,
    hright _ hpointer]
  decide +kernel

/-- An offset is no pointer, but it is written as one. -/
theorem pointerOffset_cast :
    ((Expr.binary .add (.var "p" (.pointer .int)) (.int 1)).print {}).text = "p + cast(int*) 1" ∧
    ¬ ∀ (cx : PrintContext) (nodes : List ImplicitNode) (op : BinaryOp) (lhs : Expr) (ty : Ty)
        (value : Int) (kind : Builtin),
      cx.pointerReturn = false → (∀ n ∈ nodes, n.isNullCast = false) → lhs.NamesPointer ty →
      op.movesPointer = true →
        ((Expr.binary op lhs ((Expr.integerLiteral value kind).under nodes)).print cx).text =
          (lhs.print cx).text ++ (" " ++ op.spelling ++ " ") ++
            (((Expr.integerLiteral value kind).under nodes).print cx).text := by
  have htext : ((Expr.binary .add (.var "p" (.pointer .int)) (.int 1)).print {}).text
      = "p + cast(int*) 1" := by decide +kernel
  refine ⟨htext, fun h => ?_⟩
  have hplain := h {} [] .add (.var "p" (.pointer .int)) (.pointer .int) 1 .int rfl (by decide)
    (.variable_ _ _ _ rfl) rfl
  have hown : ((Expr.var "p" (.pointer .int)).print {}).text ++
      (" " ++ BinaryOp.add.spelling ++ " ") ++
        (((Expr.integerLiteral 1 .int).under []).print {}).text = "p + 1" := by decide +kernel
  exact absurd (htext.symm.trans (hplain.trans hown)) (by decide)

end DBindings
