import DBindings.Emit.Function
import DBindings.Proofs.Tree.Spellings

/-!
# Where suffixes are written

The printer puts a suffix behind an operand at few sites.  What stands in front of the suffix is the
operand as it is printed elsewhere, whatever expression it is part of.

* `Fragment.Site`               the sites of an expression or a parameter list;
* `Expr.sited_print`            the fragments of a printed expression;
* `Function.sited_printParams`  the fragments of a parameter list.
-/

set_option linter.unusedSectionVars false

namespace DBindings

/-- Text, or a suffix behind the printed operand that it belongs to, which is one of `Q`. -/
inductive Fragment.Site (cx : PrintContext) (Q : Expr → Prop) : Fragment → Prop
  | text (s : String) : Site cx Q (.text s)
  | decay (inner : Expr) (h : Q inner) :
    Site cx Q (.suffix ⟨inner, (inner.print cx).text, .ptr⟩ none)
  | trait (kind : TraitKind) (inner : Expr) (h : Q inner) :
    Site cx Q (.suffix ⟨inner, (inner.print cx).text, .trait kind⟩ none)
  /-- an argument for a parameter of reference type -/
  | temporary (inner : Expr) (ty : Ty) (h : Q (.materializeTemporary inner ty)) :
    Site cx Q (.suffix ⟨.materializeTemporary inner ty,
      (Expr.print cx (.materializeTemporary inner ty)).text, .byRef (some ty)⟩
      (Printed.requestFor cx.names (some ty)))
  /-- the default value of a parameter of reference type -/
  | default (value : Expr) (ty : Ty) (h : Q value) (href : ty.isReference = true) :
    Site cx Q (.suffix ⟨value, (value.print cx).text, .byRef (some ty)⟩
      (Printed.requestFor cx.names (some ty)))

namespace Printed

/-- All fragments stand at sites. -/
def Sited (cx : PrintContext) (Q : Expr → Prop) (p : Printed) : Prop :=
  ∀ f ∈ p.fragments, f.Site cx Q

section
variable {cx : PrintContext} {Q : Expr → Prop}

@[simp] theorem sited_append {a b : Printed} : (a ++ b).Sited cx Q ↔ a.Sited cx Q ∧ b.Sited cx Q :=
  List.forall_mem_append

@[simp] theorem sited_ofText (s : String) : (ofText s).Sited cx Q :=
  List.forall_mem_singleton.2 (.text s)

@[simp] theorem sited_empty : empty.Sited cx Q := sited_ofText ""

theorem sited_suffixed {p : Printed} {e : Expr} {x : Suffix} {r : Option Request}
    (hp : p.Sited cx Q) (h : Fragment.Site cx Q (.suffix ⟨e, p.text, x⟩ r)) :
    (p.suffixed e x r).Sited cx Q :=
  List.forall_mem_append.2 ⟨hp, List.forall_mem_singleton.2 h⟩

theorem sited_joined {separator : String} {ps : List Printed} (h : ∀ p ∈ ps, p.Sited cx Q) :
    (joined separator ps).Sited cx Q := by
  induction ps with
  | nil => exact sited_empty
  | cons p ps ih =>
    have hp := h p List.mem_cons_self
    have hps := ih fun q hq => h q (List.mem_cons_of_mem _ hq)
    cases ps with
    | nil => exact hp
    | cons q ps => exact sited_append.2 ⟨sited_append.2 ⟨hp, sited_ofText _⟩, hps⟩

end

end Printed

namespace Expr
open Printed

/-- The text of each piece is that of its expression, one of `Q`, and its suffixes stand at
sites. -/
def PiecesSited (cx : PrintContext) (Q : Expr → Prop) (ps : List Piece) : Prop :=
  ∀ p ∈ ps, p.2 = p.1.print cx ∧ Q p.1 ∧ p.2.Sited cx Q

section
variable {cx : PrintContext} {Q : Expr → Prop} {ps : List Piece}

theorem sited_arguments (h : PiecesSited cx Q ps) : (arguments ps).Sited cx Q := by
  refine sited_joined fun q hq => ?_
  obtain ⟨p, hp, rfl⟩ := List.mem_map.1 hq
  exact (h p ((List.takeWhile_sublist _).subset hp)).2.2

theorem sited_argument {p : Piece} (h : p.2 = p.1.print cx ∧ Q p.1 ∧ p.2.Sited cx Q)
    (param : Option Ty) : (argument cx p param).Sited cx Q := by
  obtain ⟨hp, hq, hs⟩ := h
  unfold argument
  split
  · next hbinds =>
    obtain ⟨e, x⟩ := p
    cases e with
    | materializeTemporary inner ty =>
      refine sited_suffixed hs ?_
      rw [show x = _ from hp]
      exact .temporary inner ty hq
    | _ => exact absurd hbinds (by simp [isMaterialized])
  · exact hs

theorem sited_callWritten (h : PiecesSited cx Q ps) (params : List Ty) :
    ∀ q ∈ callWritten cx params ps, q.Sited cx Q := by
  induction ps generalizing params with
  | nil => exact fun q hq => absurd hq List.not_mem_nil
  | cons p ps ih =>
    have hp := h p List.mem_cons_self
    unfold callWritten
    split
    · exact fun q hq => absurd hq List.not_mem_nil
    · intro q hq
      rcases List.mem_cons.1 hq with rfl | hq
      · exact sited_argument hp _
      · exact ih (fun p hp => h p (List.mem_cons_of_mem _ hp)) _ q hq

theorem sited_callArguments (h : PiecesSited cx Q ps) (params : Option (List Ty)) :
    (callArguments cx params ps).Sited cx Q :=
  sited_joined (sited_callWritten h _)

theorem sited_operatorText (op : OverloadedOp) (h : PiecesSited cx Q ps) :
    (operatorText op ps).Sited cx Q := by
  have harguments := sited_arguments h
  have hpieces : ∀ p ∈ ps, p.2.Sited cx Q := fun p hp => (h p hp).2.2
  unfold operatorText
  split
  case h_6 callee rest =>
    have hrest : PiecesSited cx Q rest := fun p hp => h p (List.mem_cons_of_mem _ hp)
    simp [sited_arguments hrest, hpieces _ List.mem_cons_self]
  all_goals
    clear h
    simp_all

theorem sited_constructText (ty : Ty) (h : PiecesSited cx Q ps) (listInit stdInitList : Bool) :
    (constructText cx ty ps listInit stdInitList).Sited cx Q := by
  have harguments := sited_arguments h
  unfold constructText
  dsimp only
  refine sited_append.2 ⟨sited_ofText _, ?_⟩
  split <;> simp [harguments]

theorem sited_unaryText (op : UnaryOp) (operand : Expr) {x : Printed} (h : x.Sited cx Q) :
    (unaryText op operand x).Sited cx Q := by
  unfold unaryText
  split <;> simp [h]

theorem sited_binaryText (op : BinaryOp) (lhs rhs : Expr) {x y : Printed} (hx : x.Sited cx Q)
    (hy : y.Sited cx Q) : (binaryText cx op lhs rhs x y).Sited cx Q := by
  unfold binaryText
  refine sited_append.2 ⟨by simp [hx], ?_⟩
  split
  · split <;> simp [hy]
  · exact hy

theorem sited_memberAccess (base : Expr) (info : MemberInfo) {x : Printed} (h : x.Sited cx Q) :
    (memberAccess cx base x info).Sited cx Q := by
  unfold memberAccess
  dsimp only
  split <;> simp [h]

theorem sited_newText (ty : Ty) {init : Printed} (h : PiecesSited cx Q ps) (hi : init.Sited cx Q) :
    (newText cx ty ps init).Sited cx Q := by
  have harguments := sited_arguments h
  unfold arguments at harguments
  unfold newText
  split
  · simp [hi]
  · next args _ => simp [hi, harguments]

theorem sited_callText (callee : Expr) {x : Printed} (params : Option (List Ty))
    (h : PiecesSited cx Q ps) (hx : x.Sited cx Q) :
    (callText cx callee x params ps).Sited cx Q := by
  unfold callText
  split
  · exact hx
  · simp [hx, sited_callArguments h params]

end

section
variable (cx : PrintContext) {Q : Expr → Prop} (hQ : ∀ e, Q e → ∀ c ∈ e.children, Q c)
include hQ

mutual

theorem sited_printView (view : View) : (e : Expr) → Q e → (printView cx view e).Sited cx Q
  | integerLiteral _ _, _ | floatLiteral _ _, _ | charLiteral _ _, _ | stringLiteral _ _, _
  | nullPtr, _ | declRef _ _ _ _, _ | traitOfType _ _, _ | defaultArg, _ | unknown _, _ => by
    simp [printView]
  | boolLiteral value, _ => by cases value <;> simp [printView]
  | thisPtr implicit, _ => by cases implicit <;> simp [printView]
  | member base info, h => by
    have hbase := sited_printView .whole base (hQ _ h base List.mem_cons_self)
    unfold printView
    dsimp only
    split
    · exact hbase
    · exact sited_memberAccess base info hbase
  | call callee args params, h => by
    have hcallee := sited_printView .whole callee (hQ _ h callee List.mem_cons_self)
    have hargs := sited_printAll args fun e he => hQ _ h e (List.mem_cons_of_mem _ he)
    unfold printView
    dsimp only
    split
    · cases hx : printAll cx args with
      | nil => exact sited_empty
      | cons p ps => exact (hargs p (hx ▸ List.mem_cons_self)).2.2
    · exact sited_callText callee params hargs hcallee
  | memberCall callee args params conversion, h => by
    have hcallee := fun view => sited_printView view callee (hQ _ h callee List.mem_cons_self)
    have hargs := sited_printAll args fun e he => hQ _ h e (List.mem_cons_of_mem _ he)
    unfold printView
    split
    · exact hcallee .converted
    · simp [hcallee, sited_callArguments hargs params]
  | operatorCall op args, h => by
    unfold printView
    exact sited_operatorText op (sited_printAll args (hQ _ h))
  | unary op operand, h => by
    have hoperand := sited_printView .whole operand (hQ _ h operand List.mem_cons_self)
    unfold printView
    exact sited_unaryText op operand hoperand
  | binary op lhs rhs, h => by
    have hl := fun view => sited_printView view lhs (hQ _ h lhs List.mem_cons_self)
    have hr := fun view => sited_printView view rhs (hQ _ h rhs (by simp [children]))
    unfold printView
    split
    · simp [hl, hr]
    · exact hl .message
    · exact sited_binaryText op lhs rhs (hl .whole) (hr .whole)
  | conditional cond yes no, h => by
    have hcond := sited_printView .whole cond (hQ _ h cond List.mem_cons_self)
    have hyes := sited_printView .whole yes (hQ _ h yes (by simp [children]))
    have hno := sited_printView .whole no (hQ _ h no (by simp [children]))
    simp [printView, hcond, hyes, hno]
  | paren inner, h => by
    have hinner := fun view => sited_printView view inner (hQ _ h inner List.mem_cons_self)
    unfold printView
    split <;> simp [hinner]
  | implicitCast kind inner ty, h => by
    have hq := hQ _ h inner List.mem_cons_self
    have hinner := fun view => sited_printView view inner hq
    have hcast : (if cx.pointerReturn && (kind == .nullToPointer || inner.isNullPointerConstant)
          then Printed.ofText "null"
        else if kind = .nullToPointer then Printed.ofText "null"
        else if kind = .arrayToPointerDecay ∧ !inner.ignoreImplicit.isStringLiteral then
          (printView cx .whole inner).suffixed inner .ptr
        else printView cx .whole inner).Sited cx Q := by
      split
      · exact sited_ofText _
      · split
        · exact sited_ofText _
        · split
          · exact sited_suffixed (hinner .whole) (.decay inner hq)
          · exact hinner .whole
    unfold printView
    split
    · exact hcast
    · exact hcast
    · exact hinner _
  | cStyleCast ty inner, h => by
    have hinner := fun view => sited_printView view inner (hQ _ h inner List.mem_cons_self)
    unfold printView
    split <;> simp [hinner]
  | namedCast kind ty inner, h => by
    simp [printView, sited_printView .whole inner (hQ _ h inner List.mem_cons_self)]
  | functionalCast ty inner parens, h => by
    have hinner := sited_printView .whole inner (hQ _ h inner List.mem_cons_self)
    cases parens <;> simp [printView, hinner]
  | construct ty args listInit stdInitList, h => by
    unfold printView
    exact sited_constructText ty (sited_printAll args (hQ _ h)) listInit stdInitList
  | temporaryObject ty args, h => by
    simp [printView, sited_arguments (sited_printAll args (hQ _ h))]
  | unresolvedConstruct ty args, h => by
    simp [printView, sited_arguments (sited_printAll args (hQ _ h))]
  | materializeTemporary inner ty, h => by
    have hinner := fun view => sited_printView view inner (hQ _ h inner List.mem_cons_self)
    unfold printView
    split <;> exact hinner _
  | newObject ty placement init style, h => by
    have hargs := sited_printAll placement fun e he => hQ _ h e (List.mem_append_left _ he)
    unfold printView
    refine sited_newText ty hargs ?_
    cases init with
    | none => exact sited_ofText _
    | some e =>
      have he := sited_printView .whole e (hQ _ h e (by simp [children]))
      dsimp only
      split <;> simp [he]
  | deleteObject inner array, h => by
    simp [printView, sited_printView .whole inner (hQ _ h inner List.mem_cons_self)]
  | pseudoDestructor base, h => by
    simp [printView, sited_printView .whole base (hQ _ h base List.mem_cons_self)]
  | traitOfExpr kind inner, h => by
    have hq := hQ _ h inner List.mem_cons_self
    unfold printView
    split
    · simp
    · exact sited_suffixed (sited_printView .whole inner hq) (.trait kind inner hq)
  | arraySubscript base index, h => by
    have hbase := fun view => sited_printView view base (hQ _ h base List.mem_cons_self)
    have hindex := sited_printView .whole index (hQ _ h index (by simp [children]))
    simp [printView, hbase, hindex]
  | initList ty exprs, h => by
    have hexprs := sited_arguments (sited_printAll exprs (hQ _ h))
    unfold printView
    dsimp only
    split <;> simp [hexprs]
  | dependentMember base name args, h => by
    unfold printView
    refine sited_append.2 ⟨?_, by simp⟩
    cases base with
    | none => exact sited_ofText _
    | some base => simp [sited_printView .whole base (hQ _ h base (by simp [children]))]

theorem sited_printAll : (es : List Expr) → (∀ e ∈ es, Q e) → PiecesSited cx Q (printAll cx es)
  | [], _ => fun p hp => absurd hp List.not_mem_nil
  | e :: es, h => by
    intro p hp
    have he := h e List.mem_cons_self
    unfold printAll at hp
    rcases List.mem_cons.1 hp with rfl | hp
    · exact ⟨rfl, he, sited_printView .whole e he⟩
    · exact sited_printAll es (fun x hx => h x (List.mem_cons_of_mem _ hx)) p hp

end

end

/-- Every suffix in a printed expression stands behind one of its operands. -/
theorem sited_print (cx : PrintContext) (e : Expr) : (e.print cx).Sited cx (Within e) :=
  sited_printView cx (fun _ hx _ hc => .child hx hc) .whole e .self

end Expr

/-! ## Parameter lists -/

/-- An expression inside a default value of a parameter. -/
def Function.HasDefault (f : Function) (x : Expr) : Prop :=
  ∃ p ∈ f.params, ∃ value ∈ p.default, value.Within x

open Printed in
theorem Function.sited_printParams (names : NameTable) (f : Function) :
    (f.printParams names).Sited { names := names } f.HasDefault := by
  have hparam : ∀ p ∈ f.params, (p.print names).Sited { names := names } f.HasDefault := by
    intro p hp
    unfold Param.print
    dsimp only
    cases hdefault : p.default with
    | none => exact sited_ofText _
    | some value =>
      have hwithin : ∀ x, value.Within x → f.HasDefault x := fun x hx =>
        ⟨p, hp, value, hdefault, hx⟩
      have hvalue := Expr.sited_printView { names } (Q := f.HasDefault)
        (fun x ⟨p, hp, v, hv, hx⟩ c hc => ⟨p, hp, v, hv, .child hx hc⟩) .whole value
        (hwithin value .self)
      dsimp only
      split
      · simp
      · refine iteInduction (fun href => ?_) fun _ => sited_append.2 ⟨by simp, hvalue⟩
        exact sited_append.2 ⟨by simp, sited_suffixed hvalue
          (.default value p.ty (hwithin value .self) href)⟩
  unfold Function.printParams
  refine sited_joined fun q hq => ?_
  rcases List.mem_append.1 hq with hq | hq
  · obtain ⟨p, hp, rfl⟩ := List.mem_map.1 hq
    exact hparam p hp
  · split at hq
    · rw [List.mem_singleton.1 hq]
      exact sited_ofText _
    · exact absurd hq List.not_mem_nil

end DBindings
