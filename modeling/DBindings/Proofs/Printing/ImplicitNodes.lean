import DBindings.Proofs.Printing.Landmarks

/-!
# Expressions below implicit nodes

Conversions and temporaries are nodes of the tree, and most of them leave no trace in the text.

* `ImplicitNode`             an implicit cast or a temporary;
* `Expr.under`               an expression below implicit nodes;
* `ImplicitNode.text_wrap`   what a node adds to the text;
* `Expr.text_under`          silent nodes add nothing.
-/

namespace DBindings

/-- An implicit node over an expression. -/
inductive ImplicitNode where
  | cast (kind : CastKind) (ty : Ty)
  | temporary (ty : Ty)

namespace ImplicitNode

def wrap : ImplicitNode → Expr → Expr
  | cast kind ty, e => .implicitCast kind e ty
  | temporary ty, e => .materializeTemporary e ty

/-- The node turns a constant into a null pointer. -/
def isNullCast : ImplicitNode → Bool
  | cast .nullToPointer _ => true
  | _ => false

def isDecay : ImplicitNode → Bool
  | cast .arrayToPointerDecay _ => true
  | _ => false

def isSilent (n : ImplicitNode) : Bool := !n.isNullCast && !n.isDecay

/-- What is written for the node behind an expression. -/
def suffix (n : ImplicitNode) (e : Expr) : String :=
  if n.isDecay && !e.ignoreImplicit.isStringLiteral then ".ptr" else ""

variable {n : ImplicitNode} {e : Expr}

theorem isSilent_iff : n.isSilent = true ↔ n.isNullCast = false ∧ n.isDecay = false := by
  unfold isSilent
  rw [Bool.and_eq_true, Bool.not_eq_true', Bool.not_eq_true']

theorem ignoreImplicit_wrap (n : ImplicitNode) (e : Expr) :
    (n.wrap e).ignoreImplicit = e.ignoreImplicit := by
  cases n <;> rfl

theorem isNullPointerConstant_wrap (hn : n.isNullCast = false)
    (he : e.isNullPointerConstant = false) : (n.wrap e).isNullPointerConstant = false := by
  cases n with
  | temporary ty => rfl
  | cast kind ty =>
    refine Bool.or_eq_false_iff.2 ⟨beq_false_of_ne fun hkind => ?_, he⟩
    subst hkind
    exact nomatch hn

/-- A cast to a null pointer, and one over a null pointer constant where these are `null`, hide what
is below them; every other node shows it. -/
theorem text_wrap {cx : PrintContext} (hn : n.isNullCast = false)
    (hnull : (cx.pointerReturn && e.isNullPointerConstant) = false) :
    ((n.wrap e).print cx).text = (e.print cx).text ++ n.suffix e := by
  cases n with
  | temporary ty => exact String.append_empty.symm
  | cast kind ty =>
    have hkind : kind ≠ .nullToPointer := by
      rintro rfl
      exact nomatch hn
    show (Expr.printView cx .whole (.implicitCast kind e ty)).text = _
    rw [Expr.printView_implicitCast cx e ty hkind, hnull, if_neg (by decide), Expr.printView_whole]
    by_cases hdecay : kind = .arrayToPointerDecay
    · subst hdecay
      unfold Expr.decayed suffix
      cases e.ignoreImplicit.isStringLiteral with
      | false => exact Printed.text_suffixed ..
      | true => exact String.append_empty.symm
    · have hplain : (cast kind ty).isDecay = false := by
        cases kind <;> first | rfl | exact absurd rfl hdecay
      unfold Expr.decayed suffix
      rw [if_neg fun h => hdecay h.1, hplain, Bool.false_and, if_neg (by decide),
        String.append_empty]

end ImplicitNode

namespace Expr

/-- An expression below implicit nodes, the first of them outermost. -/
def under (nodes : List ImplicitNode) (e : Expr) : Expr := nodes.foldr ImplicitNode.wrap e

variable {nodes : List ImplicitNode} {e : Expr}

theorem ignoreImplicit_under (nodes : List ImplicitNode) (e : Expr) :
    (e.under nodes).ignoreImplicit = e.ignoreImplicit := by
  induction nodes with
  | nil => rfl
  | cons n nodes ih => exact (n.ignoreImplicit_wrap _).trans ih

theorem isNullPointerConstant_under (hnodes : ∀ n ∈ nodes, n.isNullCast = false)
    (he : e.isNullPointerConstant = false) : (e.under nodes).isNullPointerConstant = false := by
  induction nodes with
  | nil => exact he
  | cons n nodes ih =>
    obtain ⟨hn, hnodes⟩ := List.forall_mem_cons.1 hnodes
    exact ImplicitNode.isNullPointerConstant_wrap hn (ih hnodes)

theorem exists_text_under {cx : PrintContext} (hcx : cx.pointerReturn = false)
    (hnodes : ∀ n ∈ nodes, n.isNullCast = false) :
    ∃ behind, ((e.under nodes).print cx).text = (e.print cx).text ++ behind := by
  induction nodes with
  | nil => exact ⟨"", String.append_empty.symm⟩
  | cons n nodes ih =>
    obtain ⟨hn, hnodes⟩ := List.forall_mem_cons.1 hnodes
    obtain ⟨behind, hbehind⟩ := ih hnodes
    refine ⟨behind ++ n.suffix (e.under nodes), ?_⟩
    show ((n.wrap (e.under nodes)).print cx).text = _
    rw [ImplicitNode.text_wrap hn (by rw [hcx, Bool.false_and]), hbehind, String.append_assoc]

/-- An expression that is no null pointer is printed alike below nodes that are not written. -/
theorem text_under {cx : PrintContext} (hnodes : ∀ n ∈ nodes, n.isSilent = true)
    (he : e.isNullPointerConstant = false) :
    ((e.under nodes).print cx).text = (e.print cx).text := by
  induction nodes with
  | nil => rfl
  | cons n nodes ih =>
    obtain ⟨hn, hnodes⟩ := List.forall_mem_cons.1 hnodes
    obtain ⟨hnull, hdecay⟩ := ImplicitNode.isSilent_iff.1 hn
    have hconstant := isNullPointerConstant_under
      (fun n hmem => (ImplicitNode.isSilent_iff.1 (hnodes n hmem)).1) he
    have hsuffix : n.suffix (e.under nodes) = "" := by
      rw [ImplicitNode.suffix, hdecay, Bool.false_and, if_neg (by decide)]
    show ((n.wrap (e.under nodes)).print cx).text = _
    rw [ImplicitNode.text_wrap hnull (by rw [hconstant, Bool.and_false]), hsuffix,
      String.append_empty, ih hnodes]

end Expr

end DBindings
