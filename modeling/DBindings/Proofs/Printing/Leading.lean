import DBindings.Proofs.Printing.Views
import DBindings.Proofs.Text.Tokens

/-!
# The first character of printed code

The printer looks at the form of an operand to see whether a prefix operator needs a blank behind
it.  What counts is the first character of the operand, which comes from its leftmost part.

* `Expr.lead`                the first character of an expression, by its form;
* `Expr.head?_print`         the text of an expression begins with it;
* `Expr.unary_tokens_iff`    a prefix operator is a token of its own exactly if no operator grows
                             from it by that character, or a blank is written;
* `unaryMinus_fused`         it is not in front of a decrement that is converted.
-/

namespace DBindings

namespace Expr

def listLead : List (Option Char) → Option Char
  | [] => none
  | [c] => c
  | c :: _ => c.or ','

def argumentsLead (args : List (Expr × Option Char)) : Option Char :=
  listLead ((args.takeWhile fun arg => !arg.1.isDefaultArg).map (·.2))

def operatorLead (op : OverloadedOp) (args : List (Expr × Option Char)) : Option Char :=
  match op, args with
  | .plusPlus, (_, c) :: _ :: _ | .minusMinus, (_, c) :: _ :: _ => c.or ' '
  | .arrow, (_, c) :: _ => c
  | .call, (_, c) :: _ => c.or '('
  | .subscript, [(_, c), _] => c.or '['
  | _, [_] => op.spelling.toList.head?
  | _, [(_, c), _] => c.or ' '
  | _, args => argumentsLead args

def constructLead (cx : PrintContext) (ty : Ty) (args : List (Expr × Option Char))
    (listInit stdInitList : Bool) : Option Char :=
  if args.length != 1 &&
      (cx.inInitializer || listInit || anyContainsTemporary (args.map (·.1))) then
    (ty.render cx.names).toList.head?.or '('
  else if listInit && !stdInitList then '('
  else argumentsLead args

def memberLead (cx : PrintContext) (base : Expr) (c : Option Char) (info : MemberInfo) :
    Option Char :=
  let last := if info.anonymous then "" else memberText cx info
  if base.ignoreImplicit.isImplicitThis then
    ((if cx.polymorphic then "this." else "") ++ last).toList.head?
  else
    c.or ((if base.ignoreImplicit.isAnonymousMember then "" else ".") ++
      cx.qualifier info.qualifier ++ last).toList.head?

mutual

/-- The first character of the text of an expression, if it has any. -/
def lead (cx : PrintContext) : View → Expr → Option Char
  | view, member base info =>
    if view = .converted then lead cx .whole base
    else memberLead cx base (lead cx .whole base) info
  | view, call callee args _ =>
    if view = .message then ((leads cx args).head?.map (·.2)).getD none
    else if callee.ignoreParensImplicit.isPseudoDestructor then lead cx .whole callee
    else (lead cx .whole callee).or '('
  | _, memberCall callee _ _ conversion =>
    if conversion then lead cx .converted callee else (lead cx .whole callee).or '('
  | _, operatorCall op args => operatorLead op (leads cx args)
  | _, unary op operand =>
    if op.isPostfix then (lead cx .whole operand).or op.spelling.toList.head?
    else if operand.isThis then lead cx .whole operand
    else op.spelling.toList.head?
  | view, binary _ lhs _ =>
    match view with
    | .assertion => (lead cx .unparenthesized lhs).or ','
    | .message => lead cx .message lhs
    | _ => (lead cx .whole lhs).or ' '
  | _, conditional cond _ _ => (lead cx .whole cond).or ' '
  | view, paren inner =>
    match view with
    | .whole | .bare => '('
    | .unparenthesized => lead cx .whole inner
    | view => lead cx view inner
  | view, implicitCast kind inner _ =>
    match view with
    | .whole | .unparenthesized =>
      if cx.pointerReturn && (kind == .nullToPointer || inner.isNullPointerConstant) then 'n'
      else if kind = .nullToPointer then 'n'
      else if kind = .arrayToPointerDecay ∧ !inner.ignoreImplicit.isStringLiteral then
        (lead cx .whole inner).or '.'
      else lead cx .whole inner
    | view => lead cx view inner
  | _, cStyleCast ty inner => if ty.isVoid && inner.isAssertion then 'a' else 'c'
  | _, namedCast _ _ _ => 'c'
  | _, functionalCast ty inner parens =>
    (ty.render cx.names).toList.head?.or (if parens then '(' else lead cx .whole inner)
  | _, construct ty args listInit stdInitList =>
    constructLead cx ty (leads cx args) listInit stdInitList
  | _, temporaryObject ty _ | _, unresolvedConstruct ty _ =>
    (ty.render cx.names).toList.head?.or '('
  | view, materializeTemporary inner _ =>
    match view with
    | .unparenthesized => lead cx .whole inner
    | view => lead cx view inner
  | _, newObject _ placement _ _ =>
    if (placement.takeWhile fun e => !e.isDefaultArg).isEmpty then 'n' else 'e'
  | _, deleteObject _ _ | _, pseudoDestructor _ => 'd'
  | _, traitOfType _ _ => '('
  | _, traitOfExpr _ inner =>
    if inner.mentionsExplicitThis then 't' else (lead cx .whole inner).or '.'
  | _, arraySubscript base _ => (lead cx (if base.isDecayed then .bare else .whole) base).or '['
  | _, initList ty _ => if ty.isArray then '[' else (ty.render cx.names).toList.head?.or '('
  | _, dependentMember base name args =>
    (match base with
      | some base => (lead cx .whole base).or '.'
      | none => none).or (name ++ cx.templateArgs args).toList.head?
  -- literals, names and what is already spelled
  | _, e => (e.print cx).text.toList.head?

def leads (cx : PrintContext) : List Expr → List (Expr × Option Char)
  | [] => []
  | e :: es => (e, lead cx .whole e) :: leads cx es

end

/-! ## The text of composed code -/

open Printed

theorem head?_joined (ps : List Printed) :
    (joined ", " ps).text.toList.head? = listLead (ps.map fun p => p.text.toList.head?) := by
  match ps with
  | [] => rfl
  | [p] => rfl
  | p :: q :: ps => simp [joined, listLead]

def led (p : Piece) : Expr × Option Char := (p.1, p.2.text.toList.head?)

theorem head?_arguments (ps : List Piece) :
    (arguments ps).text.toList.head? = argumentsLead (ps.map led) := by
  unfold arguments argumentsLead written
  rw [head?_joined, List.takeWhile_map, List.map_map, List.map_map]
  rfl

theorem head?_spelling (op : OverloadedOp) (c : Char) :
    some (op.spelling.toList.head?.getD c) = op.spelling.toList.head? := by
  cases op <;> rfl

theorem head?_operatorText (op : OverloadedOp) (ps : List Piece) :
    (operatorText op ps).text.toList.head? = operatorLead op (ps.map led) := by
  have hform := operatorText_form op ps
  generalize operatorText op ps = text at hform ⊢
  cases hform with
  | leading p harrow hcall =>
    have hlead : operatorLead op [led p] = op.spelling.toList.head? := by
      cases op <;> first | rfl | contradiction
    rw [List.map_cons, List.map_nil, hlead]
    simp [head?_spelling]
  | trailing p q rest hop =>
    have hlead : operatorLead op (led p :: led q :: rest.map led) = (led p).2.or ' ' := by
      rcases hop with rfl | rfl <;> rfl
    rw [List.map_cons, List.map_cons, hlead]
    simp [led]
  | arrow p rest => rfl
  | call p rest => simp [operatorLead, led]
  | subscript p q => simp [operatorLead, led]
  | between p q hop =>
    have hlead : operatorLead op [led p, led q] = (led p).2.or ' ' := by
      cases op <;> first | rfl | exact absurd (by decide) hop
    rw [List.map_cons, List.map_cons, List.map_nil, hlead]
    simp [led]
  | none => cases op <;> rfl
  | many p q r rest hop =>
    rw [head?_arguments]
    cases op <;> first | rfl | exact absurd (by decide) hop

theorem head?_unaryText (op : UnaryOp) (operand : Expr) (x : Printed) :
    (unaryText op operand x).text.toList.head? =
      if op.isPostfix then x.text.toList.head?.or op.spelling.toList.head?
      else if operand.isThis then x.text.toList.head?
      else op.spelling.toList.head? := by
  unfold unaryText
  split
  · simp
  · by_cases hthis : operand.isThis
    · simp [hthis, Expr.isUnary_of_isThis hthis]
    · cases op <;> simp [hthis, UnaryOp.spelling]

theorem head?_constructText (cx : PrintContext) (ty : Ty) (ps : List Piece)
    (listInit stdInitList : Bool) :
    (constructText cx ty ps listInit stdInitList).text.toList.head?
      = constructLead cx ty (ps.map led) listInit stdInitList := by
  have hargs : List.map (fun p : Expr × Option Char => p.1) (ps.map led) = ps.map (·.1) := by
    rw [List.map_map]
    rfl
  unfold constructText constructLead
  rw [List.length_map, hargs]
  dsimp only
  cases hnamed : (ps.length != 1 && (cx.inInitializer || listInit ||
      anyContainsTemporary (ps.map fun p => p.1))) with
  | true => simp
  | false =>
    cases hparens : (listInit && !stdInitList) with
    | true => simp
    | false => simp [head?_arguments]

theorem head?_memberAccess (cx : PrintContext) (base : Expr) (x : Printed) (info : MemberInfo) :
    (memberAccess cx base x info).text.toList.head?
      = memberLead cx base x.text.toList.head? info := by
  unfold memberAccess memberLead
  dsimp only
  split
  · rw [text_ofText]
  · rw [text_append, String.toList_append, List.head?_append, text_append, text_append, text_ofText,
      text_ofText, text_ofText]

/-! ## All expressions -/

mutual

theorem head?_printView (cx : PrintContext) (view : View) : (e : Expr) →
    (printView cx view e).text.toList.head? = lead cx view e
  | integerLiteral _ _ | floatLiteral _ _ | charLiteral _ _ | stringLiteral _ _
  | boolLiteral _ | nullPtr | thisPtr _ | declRef _ _ _ _ | defaultArg
  | unknown _ => by
    unfold lead print printView
    rfl
  | member base info => by
    unfold printView lead
    dsimp only
    split
    · exact head?_printView cx .whole base
    · rw [head?_memberAccess, head?_printView cx .whole base]
  | call callee args params => by
    unfold printView lead callText
    dsimp only
    rw [head?_printAll cx args, ← head?_printView cx .whole callee]
    split
    · cases printAll cx args <;> rfl
    · split
      · rfl
      · simp
  | memberCall callee args params conversion => by
    unfold printView lead
    split
    · exact head?_printView cx .converted callee
    · simp [head?_printView cx .whole callee]
  | operatorCall op args => by
    unfold printView lead
    rw [head?_printAll cx args, head?_operatorText]
  | unary op operand => by
    unfold printView lead
    rw [head?_unaryText, head?_printView cx .whole operand]
  | binary op lhs rhs => by
    unfold printView lead
    cases view with
    | assertion => simp [head?_printView cx .unparenthesized lhs]
    | message => exact head?_printView cx .message lhs
    | _ => simp [binaryText, head?_printView cx .whole lhs]
  | conditional cond yes no => by
    unfold printView lead
    simp [head?_printView cx .whole cond]
  | paren inner => by
    unfold printView lead
    cases view with
    | whole | bare => simp
    | unparenthesized => exact head?_printView cx .whole inner
    | converted | assertion | message => exact head?_printView cx _ inner
  | implicitCast kind inner ty => by
    unfold printView lead
    cases view with
    | whole | unparenthesized =>
      dsimp only
      rw [← head?_printView cx .whole inner]
      split
      · rfl
      · split
        · rfl
        · split
          · simp [Suffix.text]
          · rfl
    | bare | converted | assertion | message => exact head?_printView cx _ inner
  | cStyleCast ty inner => by
    unfold printView lead
    split <;> simp
  | namedCast kind ty inner => by
    unfold printView lead
    simp
  | functionalCast ty inner parens => by
    unfold printView lead
    cases parens <;> simp [head?_printView cx .whole inner]
  | construct ty args listInit stdInitList => by
    unfold printView lead
    rw [head?_printAll cx args, head?_constructText]
  | temporaryObject ty args => by
    unfold printView lead
    simp
  | unresolvedConstruct ty args => by
    unfold printView lead
    simp
  | materializeTemporary inner ty => by
    unfold printView lead
    cases view <;> exact head?_printView cx _ inner
  | newObject ty placement init style => by
    unfold printView lead newText
    rw [written_printAll]
    cases placement.takeWhile fun e => !e.isDefaultArg <;> simp
  | deleteObject inner array => by
    unfold printView lead
    simp
  | pseudoDestructor base => by
    unfold printView lead
    simp
  | traitOfType kind ty => by
    unfold printView lead
    simp
  | traitOfExpr kind inner => by
    unfold printView lead
    split
    · simp
    · cases kind <;> simp [Suffix.text, TraitKind.suffix, head?_printView cx .whole inner]
  | arraySubscript base index => by
    unfold printView lead
    simp [head?_printView cx _ base]
  | initList ty exprs => by
    unfold printView lead
    dsimp only
    split <;> simp
  | dependentMember base name args => by
    unfold printView lead
    cases base with
    | none => simp
    | some base => simp [head?_printView cx .whole base]

theorem head?_printAll (cx : PrintContext) : (es : List Expr) →
    leads cx es = (printAll cx es).map led
  | [] => rfl
  | e :: es => by
    unfold leads printAll
    rw [List.map_cons, ← head?_printAll cx es, ← head?_printView cx .whole e]
    rfl

end

/-- The text of an expression begins with the character that its form gives. -/
theorem head?_print (cx : PrintContext) (e : Expr) :
    (e.print cx).text.toList.head? = e.lead cx .whole := head?_printView cx .whole e

end Expr

/-! ## Prefix operators -/

namespace UnaryOp
open Token

theorem spelling_mem_symbols (op : UnaryOp) : op.spelling.toList ∈ symbols := by
  cases op <;> decide +kernel

theorem startsSymbol_spelling (op : UnaryOp) :
    ∀ c ∈ op.spelling.toList.head?, startsSymbol c = true := by
  have hall : op.spelling.toList.head?.all startsSymbol = true := by cases op <;> decide +kernel
  exact (Option.all_eq_true _ _).1 hall

/-- A blank is written between the operator and the operand. -/
def spaces (op : UnaryOp) (operand : Expr) : Bool :=
  (op == .plus || op == .minus) && operand.isUnary

end UnaryOp

namespace Expr
open Printed Token

section
variable (cx : PrintContext) {op : UnaryOp} {operand : Expr}
variable (hop : op.isPostfix = false) (hthis : operand.isThis = false)
include hop hthis

theorem text_prefixed : ((unary op operand).print cx).text =
    op.spelling ++ ((if op.spaces operand then " " else "") ++ (operand.print cx).text) := by
  show (unaryText op operand (operand.print cx)).text = _
  unfold unaryText UnaryOp.spaces
  simp only [hop, hthis, Bool.false_eq_true, if_false, text_append, text_ofText,
    String.append_assoc]

/-- A prefix operator is a token of its own in front of the tokens of its operand exactly if a blank
is written between them or the first character of the operand makes no other operator of it. -/
theorem unary_tokens_iff :
    Text.tokens ((unary op operand).print cx).text
        = op.spelling :: Text.tokens (operand.print cx).text ↔
      op.spaces operand = true ∨
        ∀ c ∈ operand.lead cx .whole, op.spelling.toList ++ [c] ∉ symbols := by
  have hsymbol := Text.tokens_symbol_iff op.spelling_mem_symbols op.startsSymbol_spelling
  rw [text_prefixed cx hop hthis]
  cases hspaces : op.spaces operand with
  | true =>
    rw [if_pos rfl, ← Text.tokens_space (operand.print cx).text, hsymbol]
    refine iff_of_true ?_ (Or.inl rfl)
    intro c hc
    have hblank : ' ' = c := by simpa using hc
    rw [← hblank]
    exact concat_blank_not_mem_symbols _
  | false =>
    rw [if_neg Bool.false_ne_true, String.empty_append, hsymbol, head?_print]
    exact (or_iff_right Bool.false_ne_true).symm

end

end Expr

/-- `- -x`. -/
def twiceNegated : Expr := .unary .minus (.unary .minus (.var "x" .int))

theorem twiceNegated_tokens_iff :
    Text.tokens (twiceNegated.print {}).text
        = "-" :: Text.tokens ((Expr.unary .minus (.var "x" .int)).print {}).text ↔
      UnaryOp.minus.spaces (.unary .minus (.var "x" .int)) = true ∨
        ∀ c ∈ (Expr.unary .minus (.var "x" .int)).lead {} .whole, ['-', c] ∉ Token.symbols :=
  Expr.unary_tokens_iff {} rfl rfl

/-- `- --i`, where the decrement is read as a value. -/
def unaryMinus : Expr :=
  .unary .minus (.implicitCast .lValueToRValue (.unary .preDec (.var "i" .int)) .int)

/-- The operator and the decrement are printed as a decrement and an operator. -/
theorem unaryMinus_fused :
    (unaryMinus.print {}).text = "---i" ∧
    Text.tokens (unaryMinus.print {}).text = ["--", "-", "i"] ∧
    ¬ ∀ (cx : PrintContext) (op : UnaryOp) (operand : Expr), op.isPostfix = false →
      operand.isThis = false → Text.tokens ((Expr.unary op operand).print cx).text
        = op.spelling :: Text.tokens (operand.print cx).text := by
  have htokens : Text.tokens "---i" = ["--", "-", "i"] := by decide +kernel
  have hoperand : Text.tokens "--i" = ["--", "i"] := by decide +kernel
  refine ⟨rfl, htokens, fun h => ?_⟩
  have hsplit : Text.tokens "---i" = "-" :: Text.tokens "--i" :=
    h {} .minus (.implicitCast .lValueToRValue (.unary .preDec (.var "i" .int)) .int) rfl rfl
  rw [htokens, hoperand] at hsplit
  exact absurd hsplit (by decide)

end DBindings
