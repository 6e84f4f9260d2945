import DBindings.Proofs.Printing.Views

/-!
# What a printer writes of an expression

A step of printing appends printed code: the text to what is written so far, and the requests to
those that wait.  It does so at every depth, behind every text and for every queue.

* `Printer.Writes`        a step appends printed code;
* `Printer.Writes.bind`   two steps append one code behind the other;
* `Printer.writes_expr`   an expression is written as it is printed.
-/

set_option linter.unusedSectionVars false

namespace DBindings
namespace Printed

/-- Texts with a separator in front of each, but not in front of the first of all. -/
def listed (first : Bool) (separator : String) : List Printed → Printed
  | [] => empty
  | p :: ps => (if first then "" else separator) ++ p ++ listed false separator ps

theorem joined_eq_listed (separator : String) (ps : List Printed) :
    (joined separator ps).text = (listed true separator ps).text ∧
      (joined separator ps).requests = (listed true separator ps).requests := by
  fun_induction joined separator ps with
  | case1 => exact ⟨rfl, rfl⟩
  | case2 p => simp [listed, empty]
  | case3 p ps hps ih =>
    cases ps with
    | nil => exact absurd rfl hps
    | cons q ps =>
      obtain ⟨htext, hrequests⟩ := ih
      simp only [listed, text_append, requests_append, text_ofText, requests_ofText]
        at htext hrequests ⊢
      simp [htext, hrequests, String.append_assoc]

end Printed

namespace Printer

variable {cx : PrintContext} {depth : Nat} {m : Printing PUnit} {a b : Printed}

/-- Printed code behind the text, and its requests in the queue. -/
def append (p : Printer) (code : Printed) : Printer :=
  { p with out := p.out ++ code.text, queue := p.queue.pushAll code.requests }

/-- Wherever the printer stands, printed code is appended. -/
def Writes (cx : PrintContext) (depth : Nat) (m : Printing PUnit) (code : Printed) : Prop :=
  ∀ p : Printer, p.toPrintContext = cx → p.depth = depth → m.run p = (⟨⟩, p.append code)

theorem Writes.bind {n : PUnit → Printing PUnit} (hm : Writes cx depth m a)
    (hn : Writes cx depth (n ⟨⟩) b) : Writes cx depth (m >>= n) (a ++ b) := by
  intro p hcx hdepth
  have h := hn (p.append a) hcx hdepth
  rw [StateT.run_bind, hm p hcx hdepth]
  show (n ⟨⟩).run (p.append a) = _
  rw [h]
  simp [append, FeedbackQueue.pushAll, String.append_assoc]

theorem Writes.get {f : Printer → Printing PUnit}
    (h : ∀ p : Printer, p.toPrintContext = cx → p.depth = depth → Writes cx depth (f p) a) :
    Writes cx depth (get >>= f) a := fun p hcx hdepth => h p hcx hdepth p hcx hdepth

theorem Writes.congr (h : Writes cx depth m a)
    (hab : a.text = b.text ∧ a.requests = b.requests) : Writes cx depth m b := by
  intro p hcx hdepth
  rw [h p hcx hdepth, append, hab.1, hab.2]
  rfl

theorem writes_push (text : String) : Writes cx depth (push text) (Printed.ofText text) := by
  intro p _ _
  show _ = (PUnit.unit, p.append (Printed.ofText text))
  rw [append, Printed.text_ofText]
  rfl

theorem writes_pure : Writes cx depth (pure ⟨⟩) Printed.empty := by
  intro p _ _
  show _ = (PUnit.unit, p.append (Printed.ofText ""))
  rw [append, Printed.text_ofText, String.append_empty]
  rfl

theorem writes_pushIf (c : Bool) (text : String) :
    Writes cx depth (pushIf c text) (Printed.ofText (if c then text else "")) := by
  unfold pushIf
  split
  · exact writes_push text
  · exact writes_pure

theorem writes_type (ty : Ty) :
    Writes cx depth (type ty) (Printed.ofText (ty.render cx.names)) :=
  .get fun _ hcx _ => hcx ▸ writes_push _

theorem writes_qualifier (ty : Option Ty) :
    Writes cx depth (qualifier ty) (Printed.ofText (cx.qualifier ty)) := by
  cases ty with
  | none => exact writes_pure
  | some ty =>
    exact ((writes_type ty).bind (writes_push ".")).congr (by simp [PrintContext.qualifier])

theorem writes_templateArgs (args : List TemplateArg) :
    Writes cx depth (templateArgs args) (Printed.ofText (cx.templateArgs args)) := by
  unfold templateArgs PrintContext.templateArgs
  split
  · exact writes_pure
  · have hnames : Writes cx depth
        (do push (commaSeparated (TemplateArg.renderAll (← get).names args)); push ")")
        (Printed.ofText (commaSeparated (TemplateArg.renderAll cx.names args)) ++ ")") :=
      .get fun _ hcx _ => hcx ▸ (writes_push _).bind (writes_push _)
    refine ((writes_push _).bind hnames).congr ?_
    simp [String.append_assoc]

theorem writes_memberName (info : MemberInfo) :
    Writes cx depth (memberName info) (Printed.ofText (Expr.memberText cx info)) := by
  refine ((writes_push _).bind (writes_templateArgs _)).congr ?_
  simp only [Printed.text_append, Printed.text_ofText]
  exact ⟨rfl, rfl⟩

theorem argument_eq (cx : PrintContext) (e : Expr) (x : Printed) (param : Option Ty) :
    (x ++ Expr.argument cx (e, .empty) param).text = (Expr.argument cx (e, x) param).text ∧
      (x ++ Expr.argument cx (e, .empty) param).requests =
        (Expr.argument cx (e, x) param).requests := by
  unfold Expr.argument
  split <;> simp [Printed.byRef, Printed.empty]

theorem writes_byRef (arg : Expr) (param : Option Ty) :
    Writes cx depth (byRef arg param) (Expr.argument cx (arg, .empty) param) := by
  unfold byRef Expr.argument
  split
  · intro p hcx _
    subst hcx
    show _ = (PUnit.unit, p.append (Printed.empty.byRef p.names arg arg.ty?))
    rw [append, Printed.byRef, Printed.text_suffixed, Printed.requests_suffixed, Printed.empty,
      Printed.text_ofText, String.empty_append]
    rfl
  · exact writes_pure

/-! ## Expressions -/

section

variable {es : List Expr} (hes : ∀ e ∈ es, Writes cx depth (expr e) (e.print cx))
include hes

theorem writes_arguments (first : Bool) : Writes cx depth (arguments first es)
    (Printed.listed first ", " (Expr.written (Expr.printAll cx es))) := by
  induction es generalizing first with
  | nil =>
    rw [arguments]
    exact writes_pure
  | cons e es ih =>
    have he := hes e List.mem_cons_self
    have ih := ih (fun e he => hes e (List.mem_cons_of_mem _ he)) false
    rw [arguments, Expr.printAll, Expr.written]
    split
    · next hdefault =>
      rw [List.takeWhile_cons_of_neg (by simpa using hdefault)]
      exact writes_pure
    · next hwritten =>
      rw [List.takeWhile_cons_of_pos (by simpa using hwritten)]
      refine ((writes_pushIf _ _).bind (he.bind ih)).congr ?_
      cases first <;> simp [Printed.listed, Expr.written, Expr.print, String.append_assoc]

theorem writes_allArguments :
    Writes cx depth (arguments true es) (Expr.arguments (Expr.printAll cx es)) := by
  obtain ⟨htext, hrequests⟩ :=
    Printed.joined_eq_listed ", " (Expr.written (Expr.printAll cx es))
  exact (writes_arguments hes true).congr ⟨htext.symm, hrequests.symm⟩

theorem writes_callArguments (first : Bool) (params : List Ty) :
    Writes cx depth (callArguments first params es)
      (Printed.listed first ", " (Expr.callWritten cx params (Expr.printAll cx es))) := by
  induction es generalizing first params with
  | nil =>
    rw [callArguments]
    exact writes_pure
  | cons e es ih =>
    have he := hes e List.mem_cons_self
    have ih := ih (fun e he => hes e (List.mem_cons_of_mem _ he)) false params.tail
    obtain ⟨htext, hrequests⟩ := argument_eq cx e (e.print cx) params.head?
    rw [callArguments, Expr.printAll, Expr.callWritten]
    split
    · exact writes_pure
    · refine ((writes_pushIf _ _).bind (he.bind ((writes_byRef _ _).bind ih))).congr ?_
      simp only [Printed.text_append, Printed.requests_append] at htext hrequests
      cases first <;>
        simp [Printed.listed, Expr.printView_whole, ← htext, ← hrequests, String.append_assoc]

theorem writes_allCallArguments (params : Option (List Ty)) :
    Writes cx depth (callArguments true (params.getD []) es)
      (Expr.callArguments cx params (Expr.printAll cx es)) := by
  obtain ⟨htext, hrequests⟩ :=
    Printed.joined_eq_listed ", " (Expr.callWritten cx (params.getD []) (Expr.printAll cx es))
  exact (writes_callArguments hes true _).congr ⟨htext.symm, hrequests.symm⟩

end

section

variable {x : Expr} (hx : Writes cx depth (expr x) (x.print cx))
include hx

theorem writes_member (info : MemberInfo) :
    Writes cx depth (expr (.member x info)) ((Expr.member x info).print cx) := by
  have hlast : Writes cx depth (if info.anonymous then pure ⟨⟩ else memberName info)
      (Printed.ofText (if info.anonymous then "" else Expr.memberText cx info)) := by
    split
    · exact writes_pure
    · exact writes_memberName info
  show Writes cx depth _ (Expr.memberAccess cx x (x.print cx) info)
  rw [expr, Expr.memberAccess]
  split
  · refine Writes.get fun p hcx _ => ?_
    subst hcx
    refine ((writes_pushIf _ _).bind hlast).congr ?_
    simp
  · refine (hx.bind <| (writes_pushIf _ _).bind <| (writes_qualifier _).bind hlast).congr ?_
    cases x.ignoreImplicit.isAnonymousMember <;> simp [String.append_assoc]

theorem writes_unary (op : UnaryOp) :
    Writes cx depth (expr (.unary op x)) ((Expr.unary op x).print cx) := by
  show Writes cx depth _ (Expr.unaryText op x (x.print cx))
  rw [expr, Expr.unaryText]
  split
  · exact hx.bind (writes_push _)
  · refine ((writes_pushIf _ _).bind <| (writes_pushIf _ _).bind hx).congr ?_
    cases x.isThis <;> simp [String.append_assoc]

theorem writes_implicitCast (kind : CastKind) (ty : Ty) :
    Writes cx depth (expr (.implicitCast kind x ty)) ((Expr.implicitCast kind x ty).print cx) := by
  have hprint : (Expr.implicitCast kind x ty).print cx =
      if cx.pointerReturn && (kind == .nullToPointer || x.isNullPointerConstant) then
        Printed.ofText "null"
      else if kind = .nullToPointer then Printed.ofText "null"
      else if kind = .arrayToPointerDecay ∧ !x.ignoreImplicit.isStringLiteral then
        (x.print cx).suffixed x .ptr
      else x.print cx := rfl
  rw [hprint]
  unfold expr
  refine Writes.get fun p hcx _ => ?_
  subst hcx
  by_cases hnull : (p.pointerReturn && (kind == .nullToPointer || x.isNullPointerConstant)) = true
  · rw [if_pos hnull, if_pos hnull]
    exact writes_push _
  rw [if_neg hnull, if_neg hnull]
  cases kind
  case nullToPointer => exact writes_push _
  case arrayToPointerDecay =>
    refine (hx.bind (writes_pushIf _ _)).congr ?_
    cases x.ignoreImplicit.isStringLiteral <;> simp [Suffix.text]
  all_goals exact hx

theorem writes_call (args : List Expr) (params : Option (List Ty))
    (hargs : ∀ e ∈ args, Writes cx depth (expr e) (e.print cx)) :
    Writes cx depth (expr (.call x args params)) ((Expr.call x args params).print cx) := by
  show Writes cx depth _ (Expr.callText cx x (x.print cx) params (Expr.printAll cx args))
  rw [expr, Expr.callText]
  split
  · exact (hx.bind writes_pure).congr (by simp [Printed.empty])
  · refine (hx.bind <| (writes_push _).bind <|
      (writes_allCallArguments hargs params).bind (writes_push _)).congr ?_
    simp [String.append_assoc]

theorem writes_binary {y : Expr} (hy : Writes cx depth (expr y) (y.print cx)) (op : BinaryOp) :
    Writes cx depth (expr (.binary op x y)) ((Expr.binary op x y).print cx) := by
  show Writes cx depth _ (Expr.binaryText cx op x y (x.print cx) (y.print cx))
  rw [expr, Expr.binaryText]
  cases x.pointerOperand? with
  | none => exact (hx.bind ((writes_push _).bind hy)).congr (by simp [String.append_assoc])
  | some ty =>
    cases y.ignoreImplicit.integerValue? with
    | none => exact (hx.bind ((writes_push _).bind hy)).congr (by simp [String.append_assoc])
    | some value =>
      dsimp only
      split
      · exact (hx.bind ((writes_push _).bind (writes_push _))).congr
          (by simp [String.append_assoc])
      · refine (hx.bind <| (writes_push _).bind <| (writes_push _).bind <|
          (writes_type _).bind <| (writes_push _).bind hy).congr ?_
        simp [String.append_assoc]

end

section

variable {es : List Expr} (hes : ∀ e ∈ es, Writes cx depth (expr e) (e.print cx))
include hes

theorem writes_operator (op : OverloadedOp) :
    Writes cx depth (operator op es) (Expr.operatorText op (Expr.printAll cx es)) := by
  unfold operator
  split
  case h_1 x | h_2 x =>
    have hx := hes x (by simp)
    refine ((writes_push _).bind <| (writes_push _).bind hx).congr ?_
    simp [Expr.operatorText, Expr.printAll, Expr.printView_whole, String.append_assoc]
  case h_3 x rest hrest | h_4 x rest hrest =>
    have hx := hes x (by simp)
    refine (hx.bind <| (writes_push _).bind (writes_push _)).congr ?_
    cases rest with
    | nil => exact absurd rfl hrest
    | cons y ys =>
      simp [Expr.operatorText, Expr.printAll, Expr.printView_whole, String.append_assoc]
  case h_5 x rest => exact hes x (by simp)
  case h_6 callee rest =>
    have hcallee := hes callee (by simp)
    have hrest := writes_allArguments fun e he => hes e (List.mem_cons_of_mem _ he)
    refine (hcallee.bind <| (writes_push _).bind <| hrest.bind (writes_push _)).congr ?_
    simp [Expr.operatorText, Expr.printAll, Expr.printView_whole, String.append_assoc]
  case h_7 base index =>
    have hbase := hes base (by simp)
    have hindex := hes index (by simp)
    refine (hbase.bind <| (writes_push _).bind <| hindex.bind (writes_push _)).congr ?_
    simp [Expr.operatorText, Expr.printAll, Expr.printView_whole, String.append_assoc]
  case h_8 x hplus hminus harrow hcall =>
    have hx := hes x (by simp)
    refine ((writes_push _).bind <| (writes_push _).bind hx).congr ?_
    simp [Expr.operatorText, Expr.printAll, Expr.printView_whole, String.append_assoc, *]
  case h_9 x y hplus hminus harrow hcall hsubscript =>
    have hx := hes x (by simp)
    have hy := hes y (by simp)
    refine (hx.bind <| (writes_push _).bind hy).congr ?_
    simp [Expr.operatorText, Expr.printAll, Expr.printView_whole, String.append_assoc, *]
  case h_10 hone htwo _ _ hplus hminus harrow hcall _ =>
    have hmany :
        Expr.operatorText op (Expr.printAll cx es) = Expr.arguments (Expr.printAll cx es) := by
      rcases es with - | ⟨x, - | ⟨y, - | ⟨z, rest⟩⟩⟩
      · cases op <;> rfl
      · exact absurd rfl (hone x)
      · exact absurd rfl (htwo x y)
      · cases op
        case plusPlus => exact absurd rfl (hplus _ _ rfl)
        case minusMinus => exact absurd rfl (hminus _ _ rfl)
        case arrow => exact absurd rfl (harrow _ _ rfl)
        case call => exact absurd rfl (hcall _ _ rfl)
        all_goals rfl
    exact hmany ▸ writes_allArguments hes

end

theorem writes_construct (ty : Ty) {args : List Expr} (listInit stdInitList : Bool)
    (hargs : ∀ e ∈ args, Writes cx depth (expr e) (e.print cx)) :
    Writes cx depth (expr (.construct ty args listInit stdInitList))
      ((Expr.construct ty args listInit stdInitList).print cx) := by
  show Writes cx depth _
    (Expr.constructText cx ty (Expr.printAll cx args) listInit stdInitList)
  have hlength : (Expr.printAll cx args).length = args.length := by
    rw [Expr.printAll_eq, List.length_map]
  have hfst : (Expr.printAll cx args).map (·.1) = args := by
    rw [Expr.printAll_eq, List.map_map]
    exact List.map_id args
  unfold expr Expr.constructText
  rw [hlength, hfst]
  refine Writes.get fun p hcx _ => ?_
  subst hcx
  dsimp only
  have hrest (parens : Bool) : Writes p.toPrintContext depth
      (do pushIf parens "("; arguments true args; pushIf parens ")") _ :=
    (writes_pushIf parens "(").bind <| (writes_allArguments hargs).bind (writes_pushIf parens ")")
  cases args.length != 1 && (p.inInitializer || listInit || Expr.anyContainsTemporary args)
  · refine (hrest _).congr ?_
    cases listInit && !stdInitList <;> simp [String.append_assoc]
  · refine ((writes_type _).bind (hrest _)).congr ?_
    simp [String.append_assoc]

theorem writes_initializer {init : Option Expr} (style : NewInitStyle)
    (hinit : ∀ e ∈ init, Writes cx depth (expr e) (e.print cx)) :
    Writes cx depth (initializer style init)
      (init.elim "" fun e => if style = .call then "(" ++ e.print cx ++ ")" else e.print cx) := by
  unfold initializer
  cases init with
  | none => exact writes_pure
  | some e =>
    refine ((writes_pushIf _ _).bind <| (hinit e rfl).bind (writes_pushIf _ _)).congr ?_
    cases style <;> simp [String.append_assoc]

theorem writes_newObject (ty : Ty) {placement : List Expr} {init : Option Expr}
    (style : NewInitStyle) (hplacement : ∀ e ∈ placement, Writes cx depth (expr e) (e.print cx))
    (hinit : ∀ e ∈ init, Writes cx depth (expr e) (e.print cx)) :
    Writes cx depth (expr (.newObject ty placement init style))
      ((Expr.newObject ty placement init style).print cx) := by
  have hrest (c : Bool) : Writes cx depth
      (do type ty; initializer style init; pushIf c ")") _ :=
    (writes_type ty).bind <| (writes_initializer style hinit).bind (writes_pushIf c ")")
  have hprint : (Expr.newObject ty placement init style).print cx =
      Expr.newText cx ty (Expr.printAll cx placement)
        (init.elim "" fun e => if style = .call then "(" ++ e.print cx ++ ")" else e.print cx) := by
    cases init <;> rfl
  rw [hprint]
  unfold expr Expr.newText
  have hplain : Expr.written (Expr.printAll cx placement) = [] ↔
      placement.head?.any (!·.isDefaultArg) = false := by
    rw [Expr.written_printAll, List.map_eq_nil_iff]
    cases placement with
    | nil => simp
    | cons e es => cases h : e.isDefaultArg <;> simp [h]
  cases hemplace : placement.head?.any (!·.isDefaultArg)
  · rw [hplain.2 hemplace]
    refine ((writes_push _).bind (hrest false)).congr ?_
    simp [String.append_assoc]
  · have hargs := writes_allArguments hplacement
    unfold Expr.arguments at hargs
    split
    · next hnil => simp [hplain.1 hnil] at hemplace
    · refine ((writes_push _).bind <| hargs.bind <| (writes_push _).bind (hrest true)).congr ?_
      simp [String.append_assoc]

theorem writes_cStyleCast (ty : Ty) {x : Expr} (hx : Writes cx depth (expr x) (x.print cx))
    (hassert : ∀ cond message, x.assertion? = some (cond, message) →
      Writes cx depth (expr cond) (cond.print cx) ∧
        Writes cx depth (expr message) (message.print cx)) :
    Writes cx depth (expr (.cStyleCast ty x)) ((Expr.cStyleCast ty x).print cx) := by
  have hprint : (Expr.cStyleCast ty x).print cx =
      if ty.isVoid && x.isAssertion then "assert(" ++ Expr.printView cx .assertion x ++ ")"
      else ("cast(" ++ ty.render cx.names ++ ")") ++ x.print cx := rfl
  rw [expr, hprint]
  split
  · next cond message h =>
    split at h
    · next hvoid =>
      obtain ⟨hassertion, hview⟩ := Expr.assertion?_eq_some cx h
      obtain ⟨hcond, hmessage⟩ := hassert cond message h
      rw [if_pos (Bool.and_eq_true_iff.2 ⟨hvoid, hassertion⟩), hview]
      refine ((writes_push _).bind <| hcond.bind <| (writes_push _).bind <|
        hmessage.bind (writes_push _)).congr ?_
      simp [String.append_assoc]
    · cases h
  · next h =>
    have hno : ¬(ty.isVoid && x.isAssertion) = true := by
      intro hand
      obtain ⟨hvoid, hassertion⟩ := Bool.and_eq_true_iff.1 hand
      rw [if_pos hvoid] at h
      rw [Expr.assertion?_eq_none h] at hassertion
      exact Bool.false_ne_true hassertion
    rw [if_neg hno]
    refine ((writes_push _).bind <| (writes_type _).bind <| (writes_push _).bind hx).congr ?_
    simp [String.append_assoc]

/-- An expression is written as it is printed. -/
theorem writes_expr (e : Expr) : Writes cx depth (expr e) (e.print cx) := by
  have list (es : List Expr) (_ : sizeOf es < sizeOf e) :
      ∀ a ∈ es, Writes cx depth (expr a) (a.print cx) := fun a ha =>
    have := List.sizeOf_lt_of_mem ha
    writes_expr a
  cases e with
  | integerLiteral | floatLiteral | charLiteral | stringLiteral | nullPtr | unknown =>
    rw [expr]
    exact writes_push _
  | boolLiteral value =>
    rw [expr]
    cases value <;> exact writes_push _
  | thisPtr implicit =>
    rw [expr]
    exact (writes_pushIf _ _).congr (by cases implicit <;> exact ⟨rfl, rfl⟩)
  | declRef name ty qualifier args =>
    rw [expr]
    refine ((writes_qualifier _).bind <| (writes_push _).bind (writes_templateArgs _)).congr ?_
    simp [Expr.print, Expr.printView, String.append_assoc]
  | member base info => exact writes_member (writes_expr base) info
  | call callee args params =>
    exact writes_call (writes_expr callee) args params (list args (by decreasing_tactic))
  | memberCall callee args params conversion =>
    rw [expr, Expr.print, Expr.printView]
    split
    · have := Expr.sizeOf_converted_le callee
      rw [Expr.printView_converted]
      exact writes_expr callee.converted
    · have hargs := writes_allCallArguments (list args (by decreasing_tactic)) params
      refine ((writes_expr callee).bind <| (writes_push _).bind <|
        hargs.bind (writes_push _)).congr ?_
      simp [Expr.printView_whole, String.append_assoc]
  | operatorCall op args =>
    rw [expr, Expr.print, Expr.printView]
    exact writes_operator (list args (by decreasing_tactic)) op
  | unary op operand => exact writes_unary (writes_expr operand) op
  | binary op lhs rhs => exact writes_binary (writes_expr lhs) (writes_expr rhs) op
  | conditional cond yes no =>
    rw [expr]
    refine ((writes_expr cond).bind <| (writes_push _).bind <| (writes_expr yes).bind <|
      (writes_push _).bind (writes_expr no)).congr ?_
    simp [Expr.print, Expr.printView, String.append_assoc]
  | paren inner =>
    rw [expr]
    refine ((writes_push _).bind <| (writes_expr inner).bind (writes_push _)).congr ?_
    simp [Expr.print, Expr.printView, String.append_assoc]
  | implicitCast kind inner ty => exact writes_implicitCast (writes_expr inner) kind ty
  | cStyleCast ty inner =>
    refine writes_cStyleCast ty (writes_expr inner) fun cond message h => ?_
    have := Expr.sizeOf_assertion?_lt h
    exact ⟨writes_expr cond, writes_expr message⟩
  | namedCast kind ty inner =>
    rw [expr]
    refine ((writes_push _).bind <| (writes_type _).bind <| (writes_push _).bind <|
      (writes_expr inner).bind (writes_push _)).congr ?_
    simp [Expr.print, Expr.printView, String.append_assoc]
  | functionalCast ty inner parens =>
    rw [expr]
    refine ((writes_type _).bind <| (writes_pushIf _ _).bind <|
      (writes_expr inner).bind (writes_pushIf _ _)).congr ?_
    cases parens <;> simp [Expr.print, Expr.printView, String.append_assoc]
  | construct ty args listInit stdInitList =>
    exact writes_construct ty listInit stdInitList (list args (by decreasing_tactic))
  | temporaryObject ty args | unresolvedConstruct ty args =>
    rw [expr]
    have hargs := writes_allArguments (list args (by decreasing_tactic))
    refine ((writes_type _).bind <| (writes_push _).bind <| hargs.bind (writes_push _)).congr ?_
    simp [Expr.print, Expr.printView, String.append_assoc]
  | materializeTemporary inner ty =>
    rw [expr]
    exact writes_expr inner
  | defaultArg =>
    rw [expr]
    exact writes_pure
  | newObject ty placement init style =>
    refine writes_newObject ty style (list placement (by decreasing_tactic)) fun e he => ?_
    have : sizeOf e < sizeOf init := by
      rw [Option.mem_def.1 he]
      simp
    exact writes_expr e
  | deleteObject inner | pseudoDestructor inner =>
    rw [expr]
    refine ((writes_push _).bind <| (writes_expr inner).bind (writes_push _)).congr ?_
    simp [Expr.print, Expr.printView, String.append_assoc]
  | traitOfType kind ty =>
    rw [expr]
    refine ((writes_push _).bind <| (writes_type _).bind <| (writes_push _).bind
      (writes_push _)).congr ?_
    simp [Expr.print, Expr.printView, String.append_assoc]
  | traitOfExpr kind inner =>
    rw [expr, Expr.print, Expr.printView]
    split
    · refine ((writes_push _).bind (writes_push _)).congr ?_
      simp
    · refine ((writes_expr inner).bind (writes_push _)).congr ?_
      simp [Expr.printView_whole, Suffix.text]
  | arraySubscript base index =>
    have := Expr.sizeOf_subscripted_le base
    rw [expr, Expr.print, Expr.printView, ← Expr.print_subscripted]
    refine ((writes_expr base.subscripted).bind <| (writes_push _).bind <|
      (writes_expr index).bind (writes_push _)).congr ?_
    simp [Expr.printView_whole, String.append_assoc]
  | initList ty exprs =>
    have hexprs := writes_allArguments (list exprs (by decreasing_tactic))
    rw [expr, Expr.print, Expr.printView]
    split
    · refine ((writes_push _).bind <| hexprs.bind (writes_push _)).congr ?_
      simp [String.append_assoc]
    · refine ((writes_type _).bind <| (writes_push _).bind <| hexprs.bind (writes_push _)).congr ?_
      simp [String.append_assoc]
  | dependentMember base name args =>
    cases base with
    | none =>
      rw [expr]
      refine ((writes_push _).bind (writes_templateArgs _)).congr ?_
      simp [Expr.print, Expr.printView]
    | some base =>
      rw [expr]
      refine ((writes_expr base).bind <| (writes_push _).bind <| (writes_push _).bind
        (writes_templateArgs _)).congr ?_
      simp [Expr.print, Expr.printView, String.append_assoc]
termination_by sizeOf e
decreasing_by all_goals first | omega | (simp <;> omega)

end Printer
end DBindings
