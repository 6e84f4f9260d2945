import DBindings.Proofs.Printing.ClosedExprs
import DBindings.Proofs.Printing.Sites
import DBindings.Proofs.Text.Outline

/-!
# Which operands a suffix binds to as a whole

The printer writes no parentheses around an operand that gets a suffix.

* `Expr.outline`           whether an operator stands outside brackets, by the form;
* `Expr.outline_print`     the text of an expression is read so;
* `suffix_binds_iff`       a suffix applies to the whole operand exactly if the form says so;
* `sizeOfPointee_unbound`  it does not for a dereference.
-/

set_option linter.unusedSectionVars false

namespace DBindings

namespace Expr

def listOutline : List Outline → Outline
  | [] => .start
  | [s] => s
  | _ => .operator

def argumentsOutline (args : List (Expr × Outline)) : Outline :=
  listOutline ((args.takeWhile fun arg => !arg.1.isDefaultArg).map (·.2))

def operatorOutline (cx : PrintContext) (op : OverloadedOp) (args : List (Expr × Outline)) :
    Outline :=
  match op, args with
  | .plusPlus, [_] | .minusMinus, [_] => .operator
  | .plusPlus, (_, s) :: _ | .minusMinus, (_, s) :: _ => s.read (" " ++ op.spelling)
  | .arrow, (_, s) :: _ => s
  | .call, (_, s) :: _ => s.read "("
  | .subscript, [(_, s), _] => s.read "["
  | .subscript, [(e, _)] => Outline.operand.read (e.print cx).text
  | _, [_] | _, [_, _] => .operator
  | _, args => argumentsOutline args

def constructOutline (cx : PrintContext) (ty : Ty) (args : List (Expr × Outline))
    (listInit stdInitList : Bool) : Outline :=
  if args.length != 1 &&
      (cx.inInitializer || listInit || anyContainsTemporary (args.map (·.1))) then
    (Outline.of (ty.render cx.names)).read "("
  else if listInit && !stdInitList then .operand
  else argumentsOutline args

def memberOutline (cx : PrintContext) (base : Expr) (s : Outline) (info : MemberInfo) : Outline :=
  let last := if info.anonymous then "" else memberText cx info
  if base.ignoreImplicit.isImplicitThis then
    Outline.of ((if cx.polymorphic then "this." else "") ++ last)
  else
    s.read ((if base.ignoreImplicit.isAnonymousMember then "" else ".") ++
      cx.qualifier info.qualifier ++ last)

mutual

/-- What the text of an expression is read as outside brackets and literals. -/
def outline (cx : PrintContext) : View → Expr → Outline
  | view, member base info =>
    if view = .converted then outline cx .whole base
    else memberOutline cx base (outline cx .whole base) info
  | view, call callee args _ =>
    if view = .message then ((outlines cx args).head?.map (·.2)).getD .start
    else if callee.ignoreParensImplicit.isPseudoDestructor then outline cx .whole callee
    else (outline cx .whole callee).read "("
  | _, memberCall callee _ _ conversion =>
    if conversion then outline cx .converted callee else (outline cx .whole callee).read "("
  | _, operatorCall op args => operatorOutline cx op (outlines cx args)
  | _, unary op operand =>
    if op.isPostfix then (outline cx .whole operand).read op.spelling
    else if operand.isThis then outline cx .whole operand
    else .operator
  | view, binary _ lhs _ => if view = .message then outline cx .message lhs else .operator
  | _, conditional _ _ _ => .operator
  | view, paren inner =>
    match view with
    | .whole | .bare => .operand
    | .unparenthesized => outline cx .whole inner
    | view => outline cx view inner
  | view, implicitCast kind inner _ =>
    match view with
    | .whole | .unparenthesized =>
      if cx.pointerReturn && (kind == .nullToPointer || inner.isNullPointerConstant) then
        Outline.of "null"
      else if kind = .nullToPointer then Outline.of "null"
      else if kind = .arrayToPointerDecay ∧ !inner.ignoreImplicit.isStringLiteral then
        (outline cx .whole inner).read ".ptr"
      else outline cx .whole inner
    | view => outline cx view inner
  | _, cStyleCast ty inner => if ty.isVoid && inner.isAssertion then .operand else .operator
  | _, namedCast _ _ _ => .operator
  | _, functionalCast ty inner parens =>
    (Outline.of (ty.render cx.names)).read (if parens then "(" else (inner.print cx).text)
  | _, construct ty args listInit stdInitList =>
    constructOutline cx ty (outlines cx args) listInit stdInitList
  | _, temporaryObject ty _ | _, unresolvedConstruct ty _ =>
    (Outline.of (ty.render cx.names)).read "("
  | view, materializeTemporary inner _ =>
    match view with
    | .unparenthesized => outline cx .whole inner
    | view => outline cx view inner
  | _, newObject _ placement _ _ =>
    if (placement.takeWhile fun e => !e.isDefaultArg).isEmpty then .operator else .operand
  | _, deleteObject _ _ | _, pseudoDestructor _ => .operand
  | _, traitOfType kind _ => Outline.operand.read kind.suffix
  | _, traitOfExpr kind inner =>
    (if inner.mentionsExplicitThis then .operand else outline cx .whole inner).read kind.suffix
  | _, arraySubscript base _ =>
    (outline cx (if base.isDecayed then .bare else .whole) base).read "["
  | _, initList ty _ =>
    if ty.isArray then .operand else (Outline.of (ty.render cx.names)).read "("
  | _, dependentMember base name args =>
    (match base with
      | some base => (outline cx .whole base).read "."
      | none => .start).read (name ++ cx.templateArgs args)
  -- literals, names and what is already spelled
  | _, e => Outline.of (e.print cx).text

def outlines (cx : PrintContext) : List Expr → List (Expr × Outline)
  | [] => []
  | e :: es => (e, outline cx .whole e) :: outlines cx es

end

end Expr

/-! ## The text of composed code -/

namespace Printed

section
variable {p q : Printed} {a b : String} {d : Char} {x : List Char}

theorem outline_append (hp : Closed p.text) :
    Outline.of (p ++ q).text = (Outline.of p.text).read q.text := by
  rw [text_append, Outline.of_append hp]

theorem outline_operator (hp : Leads [] x p.text) (h : Outline.of p.text = .operator) :
    Outline.of (p ++ q).text = .operator := by
  rw [text_append, Outline.of_append_operator hp h]

theorem outline_between (ha : Leads [] (d :: x) a) (hp : Closed p.text)
    (hb : Reading.outer ⟨d :: x, .code⟩ b.toList = []) :
    Outline.of (ofText a ++ p ++ ofText b).text = Outline.of a := by
  rw [text_append, text_append, text_ofText, text_ofText]
  exact Outline.read_between .start ha hp hb

theorem outline_then_between (hp : Closed p.text) (ha : Leads [] (d :: x) a) (hq : Closed q.text)
    (hb : Reading.outer ⟨d :: x, .code⟩ b.toList = []) :
    Outline.of (p ++ (ofText a ++ q ++ ofText b)).text = (Outline.of p.text).read a := by
  rw [outline_append hp, text_append, text_append, text_ofText, text_ofText]
  exact Outline.read_between _ ha hq hb

theorem outline_behind (hp : Closed p.text) (ha : Leads [] (d :: x) a) (hq : Closed q.text)
    (hb : Reading.outer ⟨d :: x, .code⟩ b.toList = []) :
    Outline.of (p ++ ofText a ++ q ++ ofText b).text = (Outline.of p.text).read a := by
  rw [← outline_then_between hp ha hq hb]
  simp only [text_append, String.append_assoc]

theorem outline_spaced (hp : Closed p.text) (ha : Closed a)
    (h : ∀ s ∈ [Outline.start, .operand], s.read (a ++ " ") = .operator) :
    Outline.of (p ++ (ofText " " ++ ofText a ++ ofText " ") ++ q).text = .operator := by
  have hspaced : Closed (ofText " " ++ ofText a ++ ofText " ").text :=
    closed_between (by decide : Leads [] [] " ") (closed_ofText ha) (by decide)
  refine outline_operator (x := []) (closed_textAppend hp hspaced) ?_
  rw [outline_append hp, text_append, text_append, text_ofText, text_ofText]
  exact Outline.read_spaced h _

theorem outline_suffixed {e : Expr} {y : Suffix} {r : Option Request} (hp : Closed p.text) :
    Outline.of (p.suffixed e y r).text = (Outline.of p.text).read y.text := by
  rw [text_suffixed, Outline.of_append hp]

theorem outline_joined {ps : List Printed} (h : ∀ p ∈ ps, Closed p.text) :
    Outline.of (joined ", " ps).text = Expr.listOutline (ps.map fun p => Outline.of p.text) := by
  match ps with
  | [] => rfl
  | [p] => rfl
  | p :: q :: ps =>
    have hp := h p List.mem_cons_self
    refine outline_operator (closed_textAppend hp (closed_ofText (by decide))) ?_
    rw [outline_append hp, text_ofText]
    exact Outline.read_comma _

end

end Printed

namespace BinaryOp

theorem closed_spelling (op : BinaryOp) : Closed op.spelling := by
  cases op <;> decide +kernel

theorem read_spelling (op : BinaryOp) :
    ∀ s ∈ [Outline.start, .operand], s.read (op.spelling ++ " ") = .operator := by
  cases op <;> decide +kernel

end BinaryOp

namespace Expr
open Printed

def outlined (p : Piece) : Expr × Outline := (p.1, Outline.of p.2.text)

theorem operatorOutline_between {op : OverloadedOp} (hop : op ∉ unspacedOperators)
    (cx : PrintContext) (x y : Expr × Outline) : operatorOutline cx op [x, y] = .operator := by
  cases op <;> first | rfl | exact absurd (by decide) hop

theorem read_spelling {op : OverloadedOp} (hop : op ∉ unspacedOperators) :
    ∀ s ∈ [Outline.start, .operand], s.read (op.spelling ++ " ") = .operator := by
  cases op <;> first | decide +kernel | exact absurd (by decide) hop

theorem print_of_mem_printAll {cx : PrintContext} {es : List Expr} :
    ∀ p ∈ printAll cx es, p.2 = p.1.print cx := by
  intro p hp
  rw [printAll_eq] at hp
  obtain ⟨e, -, rfl⟩ := List.mem_map.1 hp
  rfl

section
variable {cx : PrintContext} {ps : List Piece} (h : ∀ p ∈ ps, Closed p.2.text)
include h

theorem outline_arguments :
    Outline.of (arguments ps).text = argumentsOutline (ps.map outlined) := by
  unfold arguments argumentsOutline
  rw [outline_joined (closed_written h), List.takeWhile_map, List.map_map]
  unfold written
  rw [List.map_map]
  rfl

theorem outline_operatorText (hps : ∀ p ∈ ps, p.2 = p.1.print cx) (op : OverloadedOp) :
    Outline.of (operatorText op ps).text = operatorOutline cx op (ps.map outlined) := by
  have hsuffix : ∀ {x : Printed}, Closed x.text →
      Outline.of (x ++ ofText " " ++ ofText op.spelling).text
        = (Outline.of x.text).read (" " ++ op.spelling) := by
    intro x hx
    rw [outline_append (closed_textAppend hx (closed_ofText (by decide))), outline_append hx,
      text_ofText, text_ofText, Outline.read_append _ (by decide)]
  have hform := operatorText_form op ps
  generalize operatorText op ps = text at hform ⊢
  cases hform with
  | leading p harrow hcall =>
    have hclosed : Closed (ofText op.spelling ++ ofText " ").text :=
      closed_textAppend (closed_ofText op.closed_spelling) (closed_ofText (by decide))
    by_cases hsubscript : op = .subscript
    · subst hsubscript
      have hbrackets : Outline.of (ofText OverloadedOp.subscript.spelling ++ ofText " ").text
          = .operand := by rfl
      rw [outline_append hclosed, hbrackets]
      exact congrArg (fun x => Outline.operand.read (Printed.text x)) (hps p List.mem_cons_self)
    · have hspelling : Outline.of (ofText op.spelling ++ ofText " ").text = .operator := by
        cases op <;> first | decide +kernel | contradiction
      have houtline : operatorOutline cx op [outlined p] = .operator := by
        cases op <;> first | rfl | contradiction
      rw [List.map_cons, List.map_nil, houtline]
      exact outline_operator hclosed hspelling
  | trailing p q rest hop =>
    rw [hsuffix (h p List.mem_cons_self)]
    rcases hop with rfl | rfl <;> rfl
  | arrow p rest => rfl
  | call p rest =>
    exact outline_behind (h p List.mem_cons_self) (by decide : Leads [] [')'] "(")
      (closed_arguments fun q hq => h q (List.mem_cons_of_mem _ hq)) (by decide)
  | subscript p q =>
    exact outline_behind (h p List.mem_cons_self) (by decide : Leads [] [']'] "[")
      (h q (List.mem_cons_of_mem _ List.mem_cons_self)) (by decide)
  | between p q hop =>
    rw [outline_spaced (h p List.mem_cons_self) op.closed_spelling (read_spelling hop)]
    exact (operatorOutline_between hop cx _ _).symm
  | none => cases op <;> rfl
  | many p q r rest hop =>
    rw [outline_arguments h]
    cases op <;> first | rfl | exact absurd (by decide) hop

end

theorem outline_unaryText (op : UnaryOp) (operand : Expr) {x : Printed} (hx : Closed x.text) :
    Outline.of (unaryText op operand x).text =
      if op.isPostfix then (Outline.of x.text).read op.spelling
      else if operand.isThis then Outline.of x.text
      else .operator := by
  unfold unaryText
  dsimp only
  split
  · rw [outline_append hx, text_ofText]
  · by_cases hthis : operand.isThis
    · rw [if_pos hthis, if_pos hthis, Expr.isUnary_of_isThis hthis, Bool.and_false]
      rfl
    · have hsymbol : ∀ b : Bool,
          Outline.of (ofText op.spelling ++ ofText (if b then " " else "")).text = .operator := by
        cases op <;> decide +kernel
      have hclosed : ∀ b : Bool,
          Closed (ofText op.spelling ++ ofText (if b then " " else "")).text := by
        cases op <;> decide +kernel
      rw [if_neg hthis, if_neg hthis]
      exact outline_operator (hclosed _) (hsymbol _)

section
variable {cx : PrintContext} (hn : cx.names.Spelled Closed)
include hn

theorem outline_constructText {ty : Ty} {ps : List Piece} (hty : ∀ s ∈ ty.spellings, Closed s)
    (h : ∀ p ∈ ps, Closed p.2.text) (listInit stdInitList : Bool) :
    Outline.of (constructText cx ty ps listInit stdInitList).text
      = constructOutline cx ty (ps.map outlined) listInit stdInitList := by
  have harguments := closed_arguments h
  have hrender := Ty.closed_render hn hty
  unfold constructText constructOutline
  rw [List.length_map, List.map_map, show (fun p : Expr × Outline => p.1) ∘ outlined
    = fun p : Piece => p.1 from rfl]
  dsimp only
  cases hnamed : (ps.length != 1 && (cx.inInitializer || listInit ||
      anyContainsTemporary (ps.map fun p => p.1))) with
  | true =>
    rw [if_pos rfl, if_pos rfl, Bool.true_or, if_pos rfl,
      outline_then_between (closed_ofText hrender) (by decide : Leads [] [')'] "(") harguments
        (by decide), text_ofText]
  | false =>
    cases hparens : (listInit && !stdInitList) with
    | true =>
      exact outline_then_between (b := ")") (closed_ofText closed_empty)
        (by decide : Leads [] [')'] "(") harguments (by decide)
    | false =>
      rw [Bool.false_or]
      exact outline_arguments h

theorem outline_memberAccess (base : Expr) {x : Printed} (info : MemberInfo) (hx : Closed x.text) :
    Outline.of (memberAccess cx base x info).text
      = memberOutline cx base (Outline.of x.text) info := by
  unfold memberAccess memberOutline
  dsimp only
  split
  · rw [text_ofText]
  · rw [outline_append hx, text_append, text_append, text_ofText, text_ofText, text_ofText]

theorem outline_newText {ty : Ty} {ps : List Piece} {init : Printed}
    (hty : ∀ s ∈ ty.spellings, Closed s) (h : ∀ p ∈ ps, Closed p.2.text)
    (hinit : Closed init.text) :
    Outline.of (newText cx ty ps init).text
      = if (written ps).isEmpty then .operator else .operand := by
  have hrender := closed_ofText (Ty.closed_render hn hty)
  have harguments := closed_arguments h
  unfold arguments at harguments
  unfold newText
  split
  · next hwritten =>
    rw [hwritten]
    exact outline_operator (closed_textAppend (closed_ofText (by decide)) hrender)
      (outline_operator (x := []) (by decide) (by decide))
  · next hwritten =>
    rw [if_neg fun hempty => hwritten (List.isEmpty_iff.1 hempty)]
    exact outline_between (by decide : Leads [] [')'] "emplace(")
      (closed_textAppend (closed_textAppend harguments
        (closed_textAppend (closed_ofText (by decide : Closed ", ")) hrender)) hinit) (by decide)

/-! ## Forms of expressions -/

section
variable {view : View}

omit hn in
theorem outline_callText {ps : List Piece} (h : ∀ p ∈ ps, Closed p.2.text) (callee : Expr)
    {x : Printed} (params : Option (List Ty)) (hx : Closed x.text) :
    Outline.of (callText cx callee x params ps).text
      = if callee.ignoreParensImplicit.isPseudoDestructor then Outline.of x.text
        else (Outline.of x.text).read "(" := by
  unfold callText
  split
  · rfl
  · exact outline_behind hx (by decide : Leads [] [')'] "(") (closed_callArguments h cx params)
      (by decide)

omit hn in
theorem outline_conditional {cond yes : Expr} (no : Expr)
    (hcond : Closed (printView cx .whole cond).text)
    (hyes : Closed (printView cx .whole yes).text) :
    Outline.of (printView cx view (conditional cond yes no)).text = .operator := by
  have hquestion := closed_textAppend hcond (closed_ofText (by decide : Closed " ? "))
  have hthen := closed_textAppend hquestion hyes
  have hspaced : Outline.of (printView cx .whole cond ++ ofText " ? ").text = .operator := by
    rw [outline_append hcond, text_ofText]
    exact Outline.read_spaced (t := "?") (by decide) _
  unfold printView
  exact outline_operator (closed_textAppend hthen (closed_ofText (by decide)))
    (outline_operator hthen (outline_operator hquestion hspaced))

omit hn in
theorem outline_implicitCast (kind : CastKind) {inner : Expr} (ty : Ty)
    (hclosed : Closed (printView cx .whole inner).text)
    (hinner : ∀ view, Outline.of (printView cx view inner).text = outline cx view inner) :
    Outline.of (printView cx view (implicitCast kind inner ty)).text
      = outline cx view (implicitCast kind inner ty) := by
  unfold printView outline
  cases view with
  | whole | unparenthesized =>
    dsimp only
    rw [← hinner .whole]
    split
    · rfl
    · split
      · rfl
      · split
        · exact outline_suffixed hclosed
        · rfl
  | bare | converted | assertion | message => exact hinner _

theorem outline_namedCast {kind : NamedCastKind} {ty : Ty} {inner : Expr}
    (hty : ∀ s ∈ ty.spellings, Closed s) (hinner : Closed (printView cx .whole inner).text) :
    Outline.of (printView cx view (namedCast kind ty inner)).text = .operator := by
  have hrender : Closed ((castTarget ty).render cx.names) :=
    Ty.closed_render hn fun s hs => hty s (mem_spellings_castTarget hs)
  have hcast : Leads [] [')'] (ofText "cast(").text := by decide
  have htyped := leads_append hcast ((closed_ofText hrender).leads [')'])
  have hopen := leads_append htyped (leads_ofText (by decide : Leads [')'] [')'] ")("))
  unfold printView
  exact outline_operator (leads_append hopen (hinner.leads [')'])) (outline_operator hopen
    (outline_operator htyped (outline_operator hcast (by decide))))

theorem outline_functionalCast {ty : Ty} {inner : Expr} (parens : Bool)
    (hty : ∀ s ∈ ty.spellings, Closed s) (hinner : Closed (printView cx .whole inner).text) :
    Outline.of (printView cx view (functionalCast ty inner parens)).text
      = (Outline.of (ty.render cx.names)).read (if parens then "(" else (inner.print cx).text) := by
  have hrender := closed_ofText (Ty.closed_render hn hty)
  unfold printView
  cases parens with
  | true =>
    dsimp only
    rw [if_pos rfl, if_pos rfl, outline_then_between hrender (by decide : Leads [] [')'] "(") hinner
      (by decide), text_ofText]
  | false =>
    dsimp only
    rw [if_neg (by decide), if_neg (by decide), outline_append hrender, text_ofText]
    rfl

omit hn in
theorem outline_dependentMember {base : Option Expr} (name : String) (args : List TemplateArg)
    (hclosed : ∀ e ∈ base, Closed (printView cx .whole e).text)
    (hbase : ∀ e ∈ base, Outline.of (printView cx .whole e).text = outline cx .whole e) :
    Outline.of (printView cx view (dependentMember base name args)).text
      = outline cx view (dependentMember base name args) := by
  unfold printView outline
  cases base with
  | none =>
    dsimp only
    rw [outline_append (closed_ofText closed_empty), text_append, text_ofText, text_ofText,
      text_ofText]
    rfl
  | some base =>
    have hbaseClosed := hclosed base rfl
    dsimp only
    rw [outline_append (closed_textAppend hbaseClosed (closed_ofText (by decide))),
      outline_append hbaseClosed, hbase base rfl, text_append, text_ofText, text_ofText,
      text_ofText]

end

/-! ## All expressions -/

mutual

theorem outline_printView (view : View) : (e : Expr) → e.Spelled Closed →
    Outline.of (printView cx view e).text = outline cx view e
  | integerLiteral _ _, _ | floatLiteral _ _, _ | charLiteral _ _, _ | stringLiteral _ _, _
  | boolLiteral _, _ | nullPtr, _ | thisPtr _, _ | declRef _ _ _ _, _ | defaultArg, _
  | unknown _, _ => by
    unfold outline print printView
    rfl
  | member base info, h => by
    have hbase : base.Spelled Closed := h.child List.mem_cons_self
    unfold printView outline
    dsimp only
    split
    · exact outline_printView .whole base hbase
    · rw [← outline_printView .whole base hbase]
      exact outline_memberAccess hn base info (closed_printView hn .whole base hbase)
  | call callee args params, h => by
    have hcallee : callee.Spelled Closed := h.child List.mem_cons_self
    have hargs : ∀ e ∈ args, e.Spelled Closed := fun e he => h.child (List.mem_cons_of_mem _ he)
    unfold printView outline
    dsimp only
    rw [outline_printAll args hargs, ← outline_printView .whole callee hcallee]
    split
    · cases printAll cx args <;> rfl
    · exact outline_callText (closed_printAll hn args hargs) callee params
        (closed_printView hn .whole callee hcallee)
  | memberCall callee args params conversion, h => by
    have hcallee : callee.Spelled Closed := h.child List.mem_cons_self
    have hargs : ∀ e ∈ args, e.Spelled Closed := fun e he => h.child (List.mem_cons_of_mem _ he)
    unfold printView outline
    split
    · exact outline_printView .converted callee hcallee
    · rw [← outline_printView .whole callee hcallee]
      exact outline_behind (closed_printView hn .whole callee hcallee)
        (by decide : Leads [] [')'] "(")
        (closed_callArguments (closed_printAll hn args hargs) cx params) (by decide)
  | operatorCall op args, h => by
    have hargs : ∀ e ∈ args, e.Spelled Closed := fun e he => h.child he
    unfold printView outline
    rw [outline_printAll args hargs]
    exact outline_operatorText (closed_printAll hn args hargs) print_of_mem_printAll op
  | unary op operand, h => by
    have hoperand : operand.Spelled Closed := h.child List.mem_cons_self
    have hclosed := closed_printView hn .whole operand hoperand
    unfold printView outline
    rw [← outline_printView .whole operand hoperand]
    exact outline_unaryText op operand hclosed
  | binary op lhs rhs, h => by
    have hlhs : lhs.Spelled Closed := h.child List.mem_cons_self
    have hclosed := fun view => closed_printView hn view lhs hlhs
    unfold printView outline
    cases view with
    | assertion =>
      refine outline_operator (closed_textAppend (hclosed _) (closed_ofText (by decide))) ?_
      rw [outline_append (hclosed _), text_ofText]
      exact Outline.read_comma _
    | message => exact outline_printView .message lhs hlhs
    | _ => exact outline_spaced (hclosed _) op.closed_spelling op.read_spelling
  | conditional cond yes no, h => by
    have hcond := closed_printView hn .whole cond (h.child List.mem_cons_self)
    have hyes := closed_printView hn .whole yes (h.child (by simp [children]))
    rw [outline_conditional no hcond hyes]
    unfold outline
    rfl
  | paren inner, h => by
    have hinner : inner.Spelled Closed := h.child List.mem_cons_self
    have hclosed := closed_printView hn .whole inner hinner
    unfold printView outline
    cases view with
    | whole | bare => exact outline_between (by decide : Leads [] [')'] "(") hclosed (by decide)
    | unparenthesized => exact outline_printView .whole inner hinner
    | converted | assertion | message => exact outline_printView _ inner hinner
  | implicitCast kind inner ty, h => by
    have hinner : inner.Spelled Closed := h.child List.mem_cons_self
    exact outline_implicitCast kind ty (closed_printView hn .whole inner hinner)
      fun view => outline_printView view inner hinner
  | cStyleCast ty inner, h => by
    have hclosed := fun view => closed_printView hn view inner (h.child List.mem_cons_self)
    have hty := closed_ofText (Ty.closed_render hn h.own)
    unfold printView outline
    split
    · exact outline_between (by decide : Leads [] [')'] "assert(") (hclosed .assertion) (by decide)
    · refine outline_operator
        (closed_between (by decide : Leads [] [')'] "cast(") hty (by decide)) ?_
      exact outline_between (by decide : Leads [] [')'] "cast(") hty (by decide)
  | namedCast kind ty inner, h => by
    rw [outline_namedCast hn h.own (closed_printView hn .whole inner (h.child List.mem_cons_self))]
    unfold outline
    rfl
  | functionalCast ty inner parens, h => by
    have hclosed := closed_printView hn .whole inner (h.child List.mem_cons_self)
    rw [outline_functionalCast hn parens h.own hclosed]
    unfold outline
    rfl
  | construct ty args listInit stdInitList, h => by
    have hargs : ∀ e ∈ args, e.Spelled Closed := fun e he => h.child he
    unfold printView outline
    rw [outline_printAll args hargs]
    exact outline_constructText hn h.own (closed_printAll hn args hargs) listInit stdInitList
  | temporaryObject ty args, h | unresolvedConstruct ty args, h => by
    have hargs := closed_arguments (closed_printAll hn args fun e he => h.child he)
    unfold printView outline
    rw [outline_behind (closed_ofText (Ty.closed_render hn h.own)) (by decide : Leads [] [')'] "(")
      hargs (by decide), text_ofText]
  | materializeTemporary inner ty, h => by
    have hinner : inner.Spelled Closed := h.child List.mem_cons_self
    unfold printView outline
    cases view <;> exact outline_printView _ inner hinner
  | newObject ty placement init style, h => by
    have hargs := closed_printAll hn placement fun e he => h.child (List.mem_append_left _ he)
    unfold printView outline
    rw [← List.isEmpty_map (f := print cx), ← written_printAll]
    refine outline_newText hn h.own hargs ?_
    cases init with
    | none => exact closed_ofText closed_empty
    | some value =>
      exact closed_newInit style (closed_printView hn .whole value (h.child (by simp [children])))
  | deleteObject inner _, h | pseudoDestructor inner, h => by
    have hclosed := closed_printView hn .whole inner (h.child List.mem_cons_self)
    unfold printView outline
    exact outline_between (by decide : Leads [] [')'] "destroy(") hclosed (by decide)
  | traitOfType kind ty, h => by
    have hty := closed_ofText (Ty.closed_render hn h.own)
    have hparen : Outline.of (ofText "(" ++ ofText (ty.render cx.names) ++ ofText ")").text
        = .operand := outline_between (by decide : Leads [] [')'] "(") hty (by decide)
    unfold printView outline
    rw [outline_append (closed_between (by decide : Leads [] [')'] "(") hty (by decide)), hparen,
      text_ofText]
  | traitOfExpr kind inner, h => by
    have hinner : inner.Spelled Closed := h.child List.mem_cons_self
    have htype : Outline.of (ofText "typeof(this)").text = .operand := by decide
    unfold printView outline
    split
    · rw [outline_append (closed_ofText (by decide)), htype, text_ofText]
    · rw [outline_suffixed (closed_printView hn .whole inner hinner),
        outline_printView .whole inner hinner]
      rfl
  | arraySubscript base index, h => by
    have hbase : base.Spelled Closed := h.child List.mem_cons_self
    have hindex := closed_printView hn .whole index (h.child (by simp [children]))
    unfold printView outline
    rw [← outline_printView _ base hbase]
    exact outline_behind (closed_printView hn _ base hbase) (by decide : Leads [] [']'] "[") hindex
      (by decide)
  | initList ty exprs, h => by
    have hexprs := closed_arguments (closed_printAll hn exprs fun e he => h.child he)
    unfold printView outline
    dsimp only
    split
    · exact outline_between (by decide : Leads [] [']'] "[") hexprs (by decide)
    · rw [outline_behind (closed_ofText (Ty.closed_render hn h.own))
        (by decide : Leads [] [')'] "(") hexprs (by decide), text_ofText]
  | dependentMember none name args, _ => outline_dependentMember name args nofun nofun
  | dependentMember (some base) name args, h => by
    have hbase : base.Spelled Closed := h.child (by simp [children])
    refine outline_dependentMember name args ?_ ?_
    · intro e he
      exact Option.some.inj he ▸ closed_printView hn .whole base hbase
    · intro e he
      exact Option.some.inj he ▸ outline_printView .whole base hbase

theorem outline_printAll : (es : List Expr) → (∀ e ∈ es, e.Spelled Closed) →
    outlines cx es = (printAll cx es).map outlined
  | [], _ => rfl
  | e :: es, h => by
    unfold outlines printAll
    rw [List.map_cons, ← outline_printAll es fun x hx => h x (List.mem_cons_of_mem _ hx),
      ← outline_printView .whole e (h e List.mem_cons_self)]
    rfl

end

theorem outline_print {e : Expr} (h : e.Spelled Closed) :
    Outline.of (e.print cx).text = e.outline cx .whole := outline_printView hn .whole e h

end

/-- No operator in the text of an expression stands outside brackets and literals, by its form. -/
def IsTight (cx : PrintContext) (e : Expr) : Prop := (e.outline cx .whole).settle ≠ .operator

instance (cx : PrintContext) (e : Expr) : Decidable (e.IsTight cx) :=
  inferInstanceAs (Decidable (_ ≠ _))

end Expr

/-! ## Suffixes -/

theorem Fragment.Site.rewrite {cx : PrintContext} {Q : Expr → Prop} {f : Fragment} {w : Rewrite}
    (h : f.Site cx Q) (hw : f.rewrite? = some w) :
    Q w.operand ∧ w.text = (w.operand.print cx).text := by
  cases h with
  | text s => exact nomatch hw
  | decay inner hq | trait kind inner hq | temporary inner ty hq | default value ty hq href =>
    rw [← Option.some.inj hw]
    exact ⟨hq, rfl⟩

theorem Printed.Sited.operatorFree_iff {cx : PrintContext} (hn : cx.names.Spelled Closed)
    {Q : Expr → Prop} (hQ : ∀ x, Q x → x.Spelled Closed) {p : Printed} (hp : p.Sited cx Q) :
    ∀ w ∈ p.rewrites, OperatorFree w.text ↔ w.operand.IsTight cx := by
  intro w hw
  obtain ⟨f, hf, hfw⟩ := List.mem_filterMap.1 hw
  obtain ⟨hq, htext⟩ := (hp f hf).rewrite hfw
  unfold OperatorFree Expr.IsTight
  rw [htext, Expr.outline_print hn (hQ _ hq)]

/-- In a printed expression and in a parameter list, the text in front of a suffix is free of
operators outside brackets and literals exactly if the operand has a form whose text is.  The
spellings that the front end hands over are closed texts. -/
theorem suffix_binds_iff {cx : PrintContext} {e : Expr} {f : Function}
    (hn : cx.names.Spelled Closed) (he : e.Spelled Closed)
    (hf : ∀ p ∈ f.params, ∀ value ∈ p.default, value.Spelled Closed) :
    (∀ w ∈ (e.print cx).rewrites, OperatorFree w.text ↔ w.operand.IsTight cx) ∧
    (∀ w ∈ (f.printParams cx.names).rewrites,
      OperatorFree w.text ↔ w.operand.IsTight { names := cx.names }) := by
  constructor
  · exact (e.sited_print cx).operatorFree_iff hn fun x hx => he.within hx
  · have hnames : (PrintContext.mk cx.names false false false).names.Spelled Closed := hn
    refine (f.sited_printParams cx.names).operatorFree_iff hnames ?_
    rintro x ⟨p, hp, value, hvalue, hx⟩
    exact (hf p hp value hvalue).within hx

/-- `sizeof *p`. -/
def sizeOfPointee : Expr := .traitOfExpr .sizeOf (.unary .deref (.var "p" (.pointer .int)))

/-- `void f(const int& x = a + b)`. -/
def sumByDefault : Function :=
  { returnType := .void
    params := [{ name := some "x", ty := Ty.int.constRef
                 default := some (.binary .add (.var "a" .int) (.var "b" .int)) }] }

/-- The operands are a dereference and a sum. -/
theorem sizeOfPointee_binds_iff :
    (∀ w ∈ (sizeOfPointee.print {}).rewrites, OperatorFree w.text ↔ w.operand.IsTight {}) ∧
    (∀ w ∈ (sumByDefault.printParams {}).rewrites, OperatorFree w.text ↔ w.operand.IsTight {}) := by
  have hoperand : (Expr.unary .deref (.var "p" (.pointer .int))).Spelled Closed :=
    .of_children (fun s hs => absurd hs List.not_mem_nil)
      (List.forall_mem_singleton.2 (.var (by decide) (by decide)))
  refine @suffix_binds_iff {} sizeOfPointee sumByDefault (fun entry h => absurd h List.not_mem_nil)
    ?_ ?_
  · exact .of_children (fun s hs => absurd hs List.not_mem_nil)
      (List.forall_mem_singleton.2 hoperand)
  · rintro p hp value hvalue
    rw [List.mem_singleton.1 hp] at hvalue
    rw [← Option.some.inj hvalue]
    refine .of_children (fun s hs => absurd hs List.not_mem_nil) ?_
    exact List.forall_mem_cons.2 ⟨.var (by decide) (by decide),
      List.forall_mem_singleton.2 (.var (by decide) (by decide))⟩

/-- The suffix of `sizeof *p` is written behind `p`. -/
theorem sizeOfPointee_unbound :
    (sizeOfPointee.print {}).text = "*p.sizeof" ∧
    ¬ ∀ (e : Expr), ∀ w ∈ (e.print {}).rewrites, OperatorFree w.text := by
  have hrewrites : (sizeOfPointee.print {}).rewrites
      = [⟨.unary .deref (.var "p" (.pointer .int)), "*p", .trait .sizeOf⟩] := by rfl
  refine ⟨by rfl, fun h => ?_⟩
  exact absurd (h sizeOfPointee _ (hrewrites ▸ List.mem_cons_self)) (by decide)

end DBindings
