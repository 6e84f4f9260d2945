import DBindings.Print.Expr
import Mathlib.Data.List.Basic

/-!
# Qualified members

A call that names a base class must not turn into a call of the overriding function.  The qualifier
stands between the receiver and the name of the member; an implicit receiver leaves no place for it.

* `Expr.receiver`               what is printed in front of a qualifier;
* `Expr.text_member`            the parts of a member access;
* `Expr.member_qualified_iff`   which accesses keep their qualifier, alone and in a call;
* `baseCall_unqualified`        a call of the function of a base class that calls itself in D.
-/

namespace DBindings

/-- The member without an explicit qualifier. -/
def MemberInfo.unqualified (info : MemberInfo) : MemberInfo := { info with qualifier := none }

namespace Expr

/-- The printed base of a member access with its dot.  An implicit one is written only in
polymorphic records, and an anonymous member brings the dot of its own base. -/
def receiver (cx : PrintContext) (base : Expr) : String :=
  if base.ignoreImplicit.isImplicitThis then if cx.polymorphic then "this." else ""
  else (base.print cx).text ++ if base.ignoreImplicit.isAnonymousMember then "" else "."

/-- The qualifier of a member access with its dot, as far as it is printed. -/
def writtenQualifier (cx : PrintContext) (base : Expr) (info : MemberInfo) : String :=
  if base.ignoreImplicit.isImplicitThis then "" else cx.qualifier info.qualifier

def argumentList (cx : PrintContext) (params : Option (List Ty)) (args : List Expr) : String :=
  "(" ++ (callArguments cx params (printAll cx args)).text ++ ")"

section
variable (cx : PrintContext) (base : Expr) (info : MemberInfo)

theorem text_member : ((member base info).print cx).text =
    receiver cx base ++ writtenQualifier cx base info ++
      if info.anonymous then "" else memberText cx info := by
  have hprint : (member base info).print cx = memberAccess cx base (base.print cx) info := rfl
  rw [hprint]
  unfold memberAccess receiver writtenQualifier
  dsimp only
  split
  · simp
  · simp [String.append_assoc]

theorem text_memberCall (callee : Expr) (args : List Expr) (params : Option (List Ty)) :
    ((memberCall callee args params false).print cx).text =
      (callee.print cx).text ++ argumentList cx params args := by
  have hprint : (memberCall callee args params false).print cx =
      callee.print cx ++ "(" ++ callArguments cx params (printAll cx args) ++ ")" := rfl
  rw [hprint]
  simp [argumentList, String.append_assoc]

theorem text_call {callee : Expr} (hcallee : callee.ignoreParensImplicit.isPseudoDestructor = false)
    (args : List Expr) (params : Option (List Ty)) :
    ((call callee args params).print cx).text =
      (callee.print cx).text ++ argumentList cx params args := by
  have hprint : (call callee args params).print cx =
      callText cx callee (callee.print cx) params (printAll cx args) := rfl
  rw [hprint, callText, hcallee, if_neg (by decide)]
  simp [argumentList, String.append_assoc]

/-- Of the parts of a member access only the qualifier depends on the qualifier. -/
theorem text_unqualified : ((member base info.unqualified).print cx).text =
    receiver cx base ++ if info.anonymous then "" else memberText cx info := by
  have hqualifier : writtenQualifier cx base info.unqualified = "" := ite_self _
  rw [text_member, hqualifier, String.append_empty]
  rfl

variable {info} {q : Ty} (hq : info.qualifier = some q)
include hq

theorem writtenQualifier_eq_empty_iff :
    writtenQualifier cx base info = "" ↔ base.ignoreImplicit.isImplicitThis = true := by
  have hdot : q.render cx.names ++ "." ≠ "" := by
    intro h
    have hlength := congrArg String.length h
    rw [String.length_append] at hlength
    exact absurd hlength (Nat.succ_ne_zero _)
  unfold writtenQualifier
  rw [hq]
  split
  · next hthis => exact iff_of_true rfl hthis
  · next hthis => exact iff_of_false hdot hthis

/-- An access with a qualifier is printed like the one without exactly if the receiver is
implicit. -/
theorem text_member_eq_unqualified_iff :
    ((member base info).print cx).text = ((member base info.unqualified).print cx).text ↔
      base.ignoreImplicit.isImplicitThis = true := by
  rw [text_unqualified, text_member, String.append_left_inj,
    ← writtenQualifier_eq_empty_iff cx base hq]
  exact String.append_eq_left_iff

/-- A member access with a qualifier has it between the receiver and the name exactly if the
receiver is not implicit, in every record.  Then neither the access nor a call of the member is
printed like the one without the qualifier, and otherwise both are. -/
theorem member_qualified_iff (hnamed : info.anonymous = false) :
    (((member base info).print cx).text =
        receiver cx base ++ (q.render cx.names ++ ".") ++ memberText cx info ↔
      base.ignoreImplicit.isImplicitThis = false) ∧
    (((member base info).print cx).text ≠ ((member base info.unqualified).print cx).text ↔
      base.ignoreImplicit.isImplicitThis = false) ∧
    ∀ args params,
      (((memberCall (member base info) args params false).print cx).text ≠
          ((memberCall (member base info.unqualified) args params false).print cx).text ↔
        base.ignoreImplicit.isImplicitThis = false) ∧
      (((call (member base info) args params).print cx).text ≠
          ((call (member base info.unqualified) args params).print cx).text ↔
        base.ignoreImplicit.isImplicitThis = false) := by
  have hdistinct : ((member base info).print cx).text ≠
        ((member base info.unqualified).print cx).text ↔
      base.ignoreImplicit.isImplicitThis = false := by
    rw [← Bool.not_eq_true]
    exact not_congr (text_member_eq_unqualified_iff cx base hq)
  refine ⟨?_, hdistinct, fun args params => ⟨?_, ?_⟩⟩
  · rw [text_member, hnamed, if_neg (by decide), String.append_left_inj, String.append_right_inj]
    cases hthis : base.ignoreImplicit.isImplicitThis with
    | false =>
      apply iff_of_true _ rfl
      unfold writtenQualifier
      rw [hthis, if_neg (by decide), hq]
      rfl
    | true =>
      have hempty := (writtenQualifier_eq_empty_iff cx base hq).2 hthis
      refine iff_of_false (fun h => ?_) (by decide)
      have hdot := h.symm.trans hempty
      exact absurd (String.append_eq_empty_iff.1 hdot).2 (by decide)
  · rw [text_memberCall, text_memberCall, Ne, String.append_left_inj]
    exact hdistinct
  · rw [text_call cx rfl, text_call cx rfl, Ne, String.append_left_inj]
    exact hdistinct

end

end Expr

/-- `Shape::draw`, called on a receiver. -/
def baseMember : MemberInfo :=
  { member := "draw", ty := .void, qualifier := some (.record ⟨1, "Shape"⟩) }

/-- With an explicit receiver the function of the base class is called. -/
theorem baseCall_qualified :
    let cx : PrintContext := { polymorphic := true }
    let receiver : Expr := .thisPtr false
    baseMember.qualifier = some (.record ⟨1, "Shape"⟩) ∧ baseMember.anonymous = false ∧
    ((Expr.member receiver baseMember).print cx).text = "this.Shape.draw" ∧
    ∀ args params,
      ((Expr.memberCall (.member receiver baseMember) args params false).print cx).text ≠
        ((Expr.memberCall (.member receiver baseMember.unqualified) args params false).print
          cx).text := by
  intro cx receiver
  obtain ⟨htext, -, hcalls⟩ := @Expr.member_qualified_iff cx receiver baseMember _ rfl rfl
  refine ⟨rfl, rfl, ?_, fun args params => (hcalls args params).1.2 rfl⟩
  rw [htext.2 rfl]
  decide +kernel

/-- Without one the call is that of the function that the body belongs to. -/
theorem baseCall_unqualified :
    ((Expr.memberCall (.member (.thisPtr true) baseMember) [] none false).print {}).text =
      "draw()" ∧
    ¬ ∀ (cx : PrintContext) (base : Expr) (info : MemberInfo) (q : Ty),
      info.qualifier = some q → info.anonymous = false →
        ∃ before, ((Expr.member base info).print cx).text =
          before ++ (q.render cx.names ++ "." ++ Expr.memberText cx info) := by
  refine ⟨by decide +kernel, fun h => ?_⟩
  obtain ⟨before, hbefore⟩ := h {} (.thisPtr true) baseMember _ rfl rfl
  have hlength := congrArg String.length hbefore
  rw [String.length_append] at hlength
  have hshort : ((Expr.member (.thisPtr true) baseMember).print {}).text.length = 4 := by
    decide +kernel
  have hlong : (Ty.render (PrintContext.names {}) (.record ⟨1, "Shape"⟩) ++ "." ++
      Expr.memberText {} baseMember).length = 10 := by decide +kernel
  omega

end DBindings
