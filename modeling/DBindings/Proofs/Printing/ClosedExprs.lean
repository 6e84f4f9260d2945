import DBindings.Proofs.Printing.ClosedLeaves
import DBindings.Proofs.Printing.Views

/-!
# Expressions are closed texts

The printer writes no bracket without its counterpart.  What an expression is printed as is closed,
if the spellings in it and the names it refers to are.

* `Expr.closed_printView`   any view of an expression;
* `Expr.closed_print`       an expression.
-/

set_option linter.unusedSectionVars false

namespace DBindings

namespace Printed

section
variable {x y z : List Char} {p q : Printed}

theorem leads_append (hp : Leads x y p.text) (hq : Leads y z q.text) :
    Leads x z (p ++ q).text := by
  rw [text_append]
  exact hp.append hq

theorem leads_ofText {s : String} (h : Leads x y s) : Leads x y (ofText s).text := by
  rw [text_ofText]
  exact h

theorem closed_textAppend (hp : Closed p.text) (hq : Closed q.text) : Closed (p ++ q).text :=
  leads_append hp hq

theorem closed_ofText {s : String} (h : Closed s) : Closed (ofText s).text := leads_ofText h

variable {a b : String}

theorem closed_between (ha : Leads [] x a) (hp : Closed p.text) (hb : Leads x [] b) :
    Closed (ofText a ++ p ++ ofText b).text :=
  leads_append (leads_append (leads_ofText ha) (hp.leads x)) (leads_ofText hb)

theorem closed_behind (hp : Closed p.text) (ha : Leads [] x a) (hq : Closed q.text)
    (hb : Leads x [] b) : Closed (p ++ ofText a ++ q ++ ofText b).text :=
  leads_append (leads_append (leads_append hp (leads_ofText ha)) (hq.leads x)) (leads_ofText hb)

end

theorem closed_suffixed {p : Printed} {e : Expr} {x : Suffix} {r : Option Request}
    (hp : Closed p.text) : Closed (p.suffixed e x r).text := by
  rw [text_suffixed]
  refine closed_append hp ?_
  cases x with
  | byRef ty => exact (by decide : Closed ".byRef")
  | ptr => decide
  | trait kind => cases kind <;> decide

theorem closed_joined {separator : String} {ps : List Printed} (hs : Closed separator)
    (h : ∀ p ∈ ps, Closed p.text) : Closed (joined separator ps).text := by
  induction ps with
  | nil => exact closed_ofText closed_empty
  | cons p ps ih =>
    have hp := h p List.mem_cons_self
    have hps := ih fun q hq => h q (List.mem_cons_of_mem _ hq)
    cases ps with
    | nil => exact hp
    | cons q ps => exact closed_textAppend (closed_textAppend hp (closed_ofText hs)) hps

end Printed

namespace Expr
open Printed

section
variable {ps : List Piece} (h : ∀ p ∈ ps, Closed p.2.text)
include h

theorem closed_written : ∀ x ∈ written ps, Closed x.text := by
  intro x hx
  obtain ⟨p, hp, rfl⟩ := List.mem_map.1 hx
  exact h p ((List.takeWhile_sublist _).subset hp)

theorem closed_arguments : Closed (arguments ps).text :=
  closed_joined (by decide) (closed_written h)

theorem closed_callWritten (cx : PrintContext) (params : List Ty) :
    ∀ x ∈ callWritten cx params ps, Closed x.text := by
  induction ps generalizing params with
  | nil => exact fun x hx => absurd hx List.not_mem_nil
  | cons p ps ih =>
    have hp := h p List.mem_cons_self
    unfold callWritten
    split
    · exact fun x hx => absurd hx List.not_mem_nil
    · intro x hx
      rcases List.mem_cons.1 hx with rfl | hx
      · unfold argument
        split
        · exact closed_suffixed hp
        · exact hp
      · exact ih (fun p hp => h p (List.mem_cons_of_mem _ hp)) _ x hx

theorem closed_callArguments (cx : PrintContext) (params : Option (List Ty)) :
    Closed (callArguments cx params ps).text :=
  closed_joined (by decide) (closed_callWritten h cx _)

theorem closed_callText (cx : PrintContext) (callee : Expr) {x : Printed}
    (params : Option (List Ty)) (hx : Closed x.text) :
    Closed (callText cx callee x params ps).text := by
  unfold callText
  split
  · exact hx
  · exact closed_behind hx (by decide : Leads [] [')'] "(") (closed_callArguments h cx params)
      (by decide)

theorem closed_operatorText (op : OverloadedOp) : Closed (operatorText op ps).text := by
  have hspelling : Closed op.spelling := op.closed_spelling
  have hform := operatorText_form op ps
  generalize operatorText op ps = text at hform ⊢
  cases hform with
  | leading p harrow hcall =>
    exact closed_textAppend
      (closed_textAppend (closed_ofText hspelling) (closed_ofText (by decide)))
      (h p List.mem_cons_self)
  | trailing p q rest hop =>
    exact closed_textAppend (closed_textAppend (h p List.mem_cons_self) (closed_ofText (by decide)))
      (closed_ofText hspelling)
  | arrow p rest => exact h p List.mem_cons_self
  | call p rest =>
    exact closed_behind (h p List.mem_cons_self) (by decide : Leads [] [')'] "(")
      (closed_arguments fun q hq => h q (List.mem_cons_of_mem _ hq)) (by decide)
  | subscript p q =>
    exact closed_behind (h p List.mem_cons_self) (by decide : Leads [] [']'] "[")
      (h q (List.mem_cons_of_mem _ List.mem_cons_self)) (by decide)
  | between p q hop =>
    have hsymbol := closed_between (by decide : Leads [] [] " ") (closed_ofText hspelling)
      (by decide : Leads [] [] " ")
    exact closed_textAppend (closed_textAppend (h p List.mem_cons_self) hsymbol)
      (h q (List.mem_cons_of_mem _ List.mem_cons_self))
  | none => exact closed_arguments h
  | many p q r rest hop => exact closed_arguments h

end

theorem closed_unaryText (op : UnaryOp) (operand : Expr) {x : Printed} (hx : Closed x.text) :
    Closed (unaryText op operand x).text := by
  have hspelling : Closed op.spelling := by cases op <;> decide
  have hsymbol : Closed (if operand.isThis then "" else op.spelling) := by
    split
    · exact closed_empty
    · exact hspelling
  have hspace : ∀ b : Bool, Closed (if b then " " else "") := by decide
  unfold unaryText
  split
  · exact closed_textAppend hx (closed_ofText hspelling)
  · exact closed_textAppend (closed_textAppend (closed_ofText hsymbol)
      (closed_ofText (hspace _))) hx

theorem closed_newInit (style : NewInitStyle) {x : Printed} (hx : Closed x.text) :
    Closed (if style = NewInitStyle.call then ofText "(" ++ x ++ ofText ")" else x).text := by
  split
  · exact closed_between (by decide : Leads [] [')'] "(") hx (by decide)
  · exact hx

theorem mem_spellings_pointerOperand {e : Expr} {ty : Ty} {s : String}
    (hty : e.pointerOperand? = some ty) (hs : s ∈ ty.spellings) : s ∈ e.spellings := by
  unfold pointerOperand? at hty
  cases e with
  | declRef name ty' qualifier args =>
    obtain ⟨-, ⟨⟩⟩ := Option.ite_none_right_eq_some.1 hty
    simp [spellings, hs]
  | member base info =>
    obtain ⟨-, ⟨⟩⟩ := Option.ite_none_right_eq_some.1 hty
    simp [spellings, hs]
  | _ => exact nomatch hty

theorem mem_spellings_castTarget {ty : Ty} {s : String} (hs : s ∈ (castTarget ty).spellings) :
    s ∈ ty.spellings := by
  unfold castTarget at hs
  split at hs
  · next inner rvalue hty => exact Ty.mem_spellings_desugar ty (hty ▸ hs)
  · exact hs

section
variable {cx : PrintContext} (hn : cx.names.Spelled Closed)
include hn

theorem closed_templateArgs {args : List TemplateArg}
    (h : ∀ s ∈ TemplateArg.spellingsAll args, Closed s) : Closed (cx.templateArgs args) := by
  unfold PrintContext.templateArgs
  split
  · exact closed_empty
  · exact closed_wrap (by decide : Leads [] [')'] "!(")
      (closed_commaSeparated (TemplateArg.closed_renderAll hn h)) (by decide)

theorem closed_qualifier {ty : Option Ty}
    (h : ∀ s ∈ (ty.map Ty.spellings).getD [], Closed s) : Closed (cx.qualifier ty) := by
  cases ty with
  | none => exact closed_empty
  | some ty => exact closed_append (Ty.closed_render hn h) (by decide)

theorem closed_binaryText (op : BinaryOp) {lhs : Expr} (rhs : Expr) {x y : Printed}
    (hlhs : ∀ s ∈ lhs.spellings, Closed s) (hx : Closed x.text) (hy : Closed y.text) :
    Closed (binaryText cx op lhs rhs x y).text := by
  have hspelling : Closed op.spelling := by cases op <;> decide
  unfold binaryText
  refine closed_textAppend (closed_textAppend hx (closed_between (by decide : Leads [] [] " ")
    (closed_ofText hspelling) (by decide))) ?_
  split
  · next ty value hty _ =>
    split
    · exact closed_ofText (by decide)
    · have hcast := Ty.closed_render hn fun s hs => hlhs s (mem_spellings_pointerOperand hty hs)
      exact closed_textAppend (closed_between (by decide : Leads [] [')'] "cast(")
        (closed_ofText hcast) (by decide)) hy
  · exact hy

theorem closed_constructText {ty : Ty} {ps : List Piece} (hty : ∀ s ∈ ty.spellings, Closed s)
    (h : ∀ p ∈ ps, Closed p.2.text) (listInit stdInitList : Bool) :
    Closed (constructText cx ty ps listInit stdInitList).text := by
  have harguments := closed_arguments h
  have hrender := Ty.closed_render hn hty
  unfold constructText
  dsimp only
  refine closed_textAppend (closed_ofText ?_) ?_
  · split
    · exact hrender
    · exact closed_empty
  · split
    · exact closed_between (by decide : Leads [] [')'] "(") harguments (by decide)
    · exact harguments

theorem closed_memberText {info : MemberInfo} (hmember : Closed info.member)
    (hargs : ∀ s ∈ TemplateArg.spellingsAll info.templateArgs, Closed s) :
    Closed (memberText cx info) := by
  unfold memberText
  refine closed_append ?_ (closed_templateArgs hn hargs)
  cases info.operator with
  | none => exact Identifier.closed_sanitize hmember
  | some ref => exact OverloadedOp.closed_memberName ref.op ref.params

theorem closed_memberAccess (base : Expr) {x : Printed} {info : MemberInfo}
    (hinfo : ∀ s ∈ (Expr.member base info).spellings, Closed s) (hx : Closed x.text) :
    Closed (memberAccess cx base x info).text := by
  have hlast : Closed (if info.anonymous then "" else memberText cx info) := by
    split
    · exact closed_empty
    · exact closed_memberText hn (hinfo _ List.mem_cons_self)
        fun s hs => hinfo s (by simp [spellings, hs])
  have hqualifier : Closed (cx.qualifier info.qualifier) :=
    closed_qualifier hn fun s hs => hinfo s (by simp [spellings, hs])
  unfold memberAccess
  dsimp only
  split
  · refine closed_ofText (closed_append ?_ hlast)
    split <;> decide
  · refine closed_textAppend hx (closed_textAppend (closed_textAppend (closed_ofText ?_)
      (closed_ofText hqualifier)) (closed_ofText hlast))
    split <;> decide

theorem closed_newText {ty : Ty} {ps : List Piece} {init : Printed}
    (hty : ∀ s ∈ ty.spellings, Closed s) (h : ∀ p ∈ ps, Closed p.2.text)
    (hinit : Closed init.text) : Closed (newText cx ty ps init).text := by
  have hrender := Ty.closed_render hn hty
  have harguments := closed_arguments h
  unfold arguments at harguments
  unfold newText
  split
  · exact closed_textAppend (closed_textAppend (closed_ofText (by decide)) (closed_ofText hrender))
      hinit
  · next args _ =>
    exact closed_between (by decide : Leads [] [')'] "emplace(")
      (closed_textAppend (closed_textAppend harguments
        (closed_textAppend (closed_ofText (by decide)) (closed_ofText hrender))) hinit) (by decide)

/-! ## Forms of expressions -/

section
variable {view : View}

theorem closed_declRef {name : String} {ty : Ty} {qualifier : Option Ty} {args : List TemplateArg}
    (h : (declRef name ty qualifier args).Spelled Closed) :
    Closed (printView cx view (declRef name ty qualifier args)).text := by
  have hqualifier : Closed (cx.qualifier qualifier) :=
    closed_qualifier hn fun s hs => h.own s (by simp [spellings, hs])
  have hargs : Closed (cx.templateArgs args) :=
    closed_templateArgs hn fun s hs => h.own s (by simp [spellings, hs])
  have hname := Identifier.closed_sanitize (h.own name List.mem_cons_self)
  exact closed_textAppend (closed_textAppend (closed_ofText hqualifier) (closed_ofText hname))
    (closed_ofText hargs)

theorem closed_dependentMember {base : Option Expr} {name : String} {args : List TemplateArg}
    (h : (dependentMember base name args).Spelled Closed)
    (hbase : ∀ e ∈ base, Closed (printView cx .whole e).text) :
    Closed (printView cx view (dependentMember base name args)).text := by
  have hargs : Closed (cx.templateArgs args) :=
    closed_templateArgs hn fun s hs => h.own s (by simp [spellings, hs])
  have hlast := closed_textAppend (closed_ofText (h.own name List.mem_cons_self))
    (closed_ofText hargs)
  cases base with
  | none => exact closed_textAppend (closed_ofText closed_empty) hlast
  | some e =>
    exact closed_textAppend (closed_textAppend (hbase e rfl) (closed_ofText (by decide))) hlast

theorem closed_namedCast {kind : NamedCastKind} {ty : Ty} {inner : Expr}
    (hty : ∀ s ∈ ty.spellings, Closed s) (hinner : Closed (printView cx .whole inner).text) :
    Closed (printView cx view (namedCast kind ty inner)).text := by
  have hrender : Closed ((castTarget ty).render cx.names) :=
    Ty.closed_render hn fun s hs => hty s (mem_spellings_castTarget hs)
  refine leads_append (leads_append ?_ (hinner.leads [')'])) (leads_ofText (by decide))
  exact leads_append (leads_append (leads_ofText (by decide : Leads [] [')'] "cast("))
    ((closed_ofText hrender).leads [')'])) (leads_ofText (by decide))

omit hn in
theorem closed_implicitCast {kind : CastKind} {inner : Expr} {ty : Ty}
    (hinner : ∀ view, Closed (printView cx view inner).text) :
    Closed (printView cx view (implicitCast kind inner ty)).text := by
  have hcast : Closed (
      if cx.pointerReturn && (kind == .nullToPointer || inner.isNullPointerConstant) then
        Printed.ofText "null"
      else if kind = .nullToPointer then Printed.ofText "null"
      else if kind = .arrayToPointerDecay ∧ !inner.ignoreImplicit.isStringLiteral then
        (printView cx .whole inner).suffixed inner .ptr
      else printView cx .whole inner).text := by
    split
    · exact closed_ofText (by decide)
    · split
      · exact closed_ofText (by decide)
      · split
        · exact closed_suffixed (hinner .whole)
        · exact hinner .whole
  unfold printView
  split
  · exact hcast
  · exact hcast
  · exact hinner _

omit hn in
theorem closed_trait (kind : TraitKind) {x : Printed} (hx : Closed x.text) :
    Closed (x ++ ofText kind.suffix).text :=
  closed_textAppend hx (closed_ofText (by cases kind <;> decide))

end

/-! ## All expressions -/

mutual

theorem closed_printView (view : View) :
    (e : Expr) → e.Spelled Closed → Closed (printView cx view e).text
  | integerLiteral value kind, _ => closed_ofText (Literal.closed_integer value kind)
  | floatLiteral value kind, _ => closed_ofText (Literal.closed_float value kind)
  | charLiteral value kind, _ => closed_ofText (Literal.closed_character value kind)
  | stringLiteral value wide, _ => closed_ofText (Literal.closed_string value)
  | boolLiteral value, _ => by cases value <;> exact closed_ofText (by decide)
  | thisPtr implicit, _ => by cases implicit <;> exact closed_ofText (by decide)
  | nullPtr, _ | defaultArg, _ => closed_ofText (by decide)
  | unknown spelling, h => closed_ofText (h.own spelling List.mem_cons_self)
  | declRef name ty qualifier args, h => closed_declRef hn h
  | member base info, h => by
    have hbase := closed_printView .whole base (h.child List.mem_cons_self)
    unfold printView
    dsimp only
    split
    · exact hbase
    · exact closed_memberAccess hn base h.own hbase
  | call callee args params, h => by
    have hcallee := closed_printView .whole callee (h.child List.mem_cons_self)
    have hargs := closed_printAll args fun e he => h.child (List.mem_cons_of_mem _ he)
    unfold printView
    dsimp only
    split
    · cases hx : printAll cx args with
      | nil => exact closed_ofText closed_empty
      | cons p ps => exact hargs p (hx ▸ List.mem_cons_self)
    · exact closed_callText hargs cx callee params hcallee
  | memberCall callee args params conversion, h => by
    have hcallee := fun view => closed_printView view callee (h.child List.mem_cons_self)
    have hargs := closed_printAll args fun e he => h.child (List.mem_cons_of_mem _ he)
    unfold printView
    split
    · exact hcallee .converted
    · exact closed_behind (hcallee .whole) (by decide : Leads [] [')'] "(")
        (closed_callArguments hargs cx params) (by decide)
  | operatorCall op args, h => by
    unfold printView
    exact closed_operatorText (closed_printAll args fun e he => h.child he) op
  | unary op operand, h => by
    unfold printView
    exact closed_unaryText op operand (closed_printView .whole operand (h.child List.mem_cons_self))
  | binary op lhs rhs, h => by
    have hchild : lhs.Spelled Closed := h.child List.mem_cons_self
    have hl := fun view => closed_printView view lhs hchild
    have hr := fun view => closed_printView view rhs (h.child (by simp [children]))
    unfold printView
    split
    · exact closed_textAppend (closed_textAppend (hl .unparenthesized) (closed_ofText (by decide)))
        (hr .message)
    · exact hl .message
    · exact closed_binaryText hn op rhs hchild.own (hl .whole) (hr .whole)
  | conditional cond yes no, h => by
    have hcond := closed_printView .whole cond (h.child List.mem_cons_self)
    have hyes := closed_printView .whole yes (h.child (by simp [children]))
    have hno := closed_printView .whole no (h.child (by simp [children]))
    unfold printView
    exact closed_textAppend (closed_textAppend (closed_textAppend (closed_textAppend hcond
      (closed_ofText (by decide))) hyes) (closed_ofText (by decide))) hno
  | paren inner, h => by
    have hinner := fun view => closed_printView view inner (h.child List.mem_cons_self)
    unfold printView
    split
    · exact closed_between (by decide : Leads [] [')'] "(") (hinner .whole) (by decide)
    · exact closed_between (by decide : Leads [] [')'] "(") (hinner .whole) (by decide)
    · exact hinner .whole
    · exact hinner _
  | implicitCast kind inner ty, h =>
    closed_implicitCast fun view => closed_printView view inner (h.child List.mem_cons_self)
  | cStyleCast ty inner, h => by
    have hinner := fun view => closed_printView view inner (h.child List.mem_cons_self)
    have hty := Ty.closed_render hn h.own
    unfold printView
    split
    · exact closed_between (by decide : Leads [] [')'] "assert(") (hinner .assertion) (by decide)
    · exact closed_textAppend (closed_between (by decide : Leads [] [')'] "cast(")
        (closed_ofText hty) (by decide)) (hinner .whole)
  | namedCast kind ty inner, h =>
    closed_namedCast hn h.own (closed_printView .whole inner (h.child List.mem_cons_self))
  | functionalCast ty inner parens, h => by
    have hinner := closed_printView .whole inner (h.child List.mem_cons_self)
    unfold printView
    refine closed_textAppend (closed_ofText (Ty.closed_render hn h.own)) ?_
    split
    · exact closed_between (by decide : Leads [] [')'] "(") hinner (by decide)
    · exact hinner
  | construct ty args listInit stdInitList, h => by
    unfold printView
    exact closed_constructText hn h.own (closed_printAll args fun e he => h.child he) listInit
      stdInitList
  | temporaryObject ty args, h | unresolvedConstruct ty args, h => by
    unfold printView
    exact closed_behind (closed_ofText (Ty.closed_render hn h.own)) (by decide : Leads [] [')'] "(")
      (closed_arguments (closed_printAll args fun e he => h.child he)) (by decide)
  | materializeTemporary inner ty, h => by
    have hinner := fun view => closed_printView view inner (h.child List.mem_cons_self)
    unfold printView
    split <;> exact hinner _
  | newObject ty placement init style, h => by
    have hargs := closed_printAll placement fun e he => h.child (List.mem_append_left _ he)
    unfold printView
    refine closed_newText hn h.own hargs ?_
    cases init with
    | none => exact closed_ofText closed_empty
    | some e =>
      exact closed_newInit style (closed_printView .whole e (h.child (by simp [children])))
  | deleteObject inner _, h | pseudoDestructor inner, h =>
    closed_between (by decide : Leads [] [')'] "destroy(")
      (closed_printView .whole inner (h.child List.mem_cons_self)) (by decide)
  | traitOfType kind ty, h => by
    unfold printView
    exact closed_trait kind (closed_between (by decide : Leads [] [')'] "(")
      (closed_ofText (Ty.closed_render hn h.own)) (by decide))
  | traitOfExpr kind inner, h => by
    unfold printView
    split
    · exact closed_trait kind (closed_ofText (by decide))
    · exact closed_suffixed (closed_printView .whole inner (h.child List.mem_cons_self))
  | arraySubscript base index, h => by
    have hbase := fun view => closed_printView view base (h.child List.mem_cons_self)
    have hindex := closed_printView .whole index (h.child (by simp [children]))
    unfold printView
    exact closed_behind (hbase _) (by decide : Leads [] [']'] "[") hindex (by decide)
  | initList ty exprs, h => by
    have hexprs := closed_arguments (closed_printAll exprs fun e he => h.child he)
    unfold printView
    dsimp only
    split
    · exact closed_between (by decide : Leads [] [']'] "[") hexprs (by decide)
    · exact closed_behind (closed_ofText (Ty.closed_render hn h.own))
        (by decide : Leads [] [')'] "(") hexprs (by decide)
  | dependentMember none name args, h => closed_dependentMember hn h nofun
  | dependentMember (some base) name args, h =>
    closed_dependentMember hn h fun e he => Option.some.inj he ▸
      closed_printView .whole base (h.child (by simp [children]))

theorem closed_printAll : (es : List Expr) → (∀ e ∈ es, e.Spelled Closed) →
    ∀ p ∈ printAll cx es, Closed p.2.text
  | [], _ => fun p hp => absurd hp List.not_mem_nil
  | e :: es, h => by
    have he := closed_printView .whole e (h e List.mem_cons_self)
    intro p hp
    unfold printAll at hp
    rcases List.mem_cons.1 hp with rfl | hp
    · exact he
    · exact closed_printAll es (fun x hx => h x (List.mem_cons_of_mem _ hx)) p hp

end

theorem closed_print {e : Expr} (h : e.Spelled Closed) : Closed (e.print cx).text :=
  closed_printView hn .whole e h

end

end Expr

end DBindings
