import DBindings.Print.Stmt
import DBindings.Proofs.Printing.ClosedExprs
import DBindings.Proofs.Text.Characters

/-!
# Landmarks of printed expressions

Most of a printed text is put together from names, types and symbols.  Some nodes of the tree are
told apart in it: literals and operator names, which bring quotes, and null pointer constants below
an implicit cast, which are `null` in the code of a function that returns a pointer.

* `Expr.landmarks`          these nodes in the order in which they are printed;
* `Shows`                   the landmarks of a text, in two printings that differ in how null
                            pointer constants are printed;
* `Expr.shows_printView`    what an expression is printed as has its landmarks.
-/

set_option linter.unusedSectionVars false

namespace DBindings
open Printed Text

/-- A node that is told apart in printed text. -/
inductive Landmark where
  | character (value : UInt32) (kind : CharKind)
  | string (value : String)
  /-- the name of an overloaded operator, which quotes the symbol -/
  | operator (ref : OperatorRef)
  /-- an implicit cast over a null pointer constant, printed as `null` -/
  | null (cast : Expr)

/-- The place where the code will stand, with null pointer constants for a pointer or not. -/
abbrev PrintContext.returning (cx : PrintContext) (pointer : Bool) : PrintContext :=
  { cx with pointerReturn := pointer }

namespace Expr

/-- A cast over a null pointer constant, other than the one that makes it a pointer. -/
def isNulled : Expr → Bool
  | implicitCast kind inner _ => kind != .nullToPointer && inner.isNullPointerConstant
  | _ => false

/-- The printed operand of an implicit cast that is not printed as `null`. -/
def decayed (kind : CastKind) (inner : Expr) (x : Printed) : Printed :=
  if kind = .arrayToPointerDecay ∧ !inner.ignoreImplicit.isStringLiteral then
    x.suffixed inner .ptr
  else x

theorem printView_nullToPointer (cx : PrintContext) (inner : Expr) (ty : Ty) :
    printView cx .whole (implicitCast .nullToPointer inner ty) = ofText "null" := by
  conv_lhs => unfold printView
  exact ite_self _

theorem printView_implicitCast (cx : PrintContext) {kind : CastKind} (inner : Expr) (ty : Ty)
    (hkind : kind ≠ .nullToPointer) :
    printView cx .whole (implicitCast kind inner ty) =
      if cx.pointerReturn && inner.isNullPointerConstant then ofText "null"
      else decayed kind inner (printView cx .whole inner) := by
  have hbeq : (kind == CastKind.nullToPointer) = false := beq_false_of_ne hkind
  conv_lhs => unfold printView
  dsimp only
  rw [hbeq, Bool.false_or, if_neg hkind]
  rfl

/-- The landmarks of the arguments that are written. -/
def writtenLandmarks (args : List (Expr × List Landmark)) : List Landmark :=
  (args.takeWhile fun arg => !arg.1.isDefaultArg).flatMap (·.2)

def operatorLandmarks (op : OverloadedOp) (args : List (Expr × List Landmark)) : List Landmark :=
  match op, args with
  | .plusPlus, (_, x) :: _ | .minusMinus, (_, x) :: _ | .arrow, (_, x) :: _ => x
  | .call, (_, callee) :: rest => callee ++ writtenLandmarks rest
  | _, [(_, x)] => x
  | _, [(_, x), (_, y)] => x ++ y
  | _, args => writtenLandmarks args

def memberLandmarks (info : MemberInfo) : List Landmark :=
  if info.anonymous then [] else info.operator.toList.map .operator

mutual

/-- The landmarks of the part of an expression that a view shows. -/
def landmarks (cx : PrintContext) : View → Expr → List Landmark
  | _, charLiteral value kind => [.character value kind]
  | _, stringLiteral value _ => [.string value]
  | view, member base info =>
    let x := landmarks cx .whole base
    if view = .converted then x
    else (if base.ignoreImplicit.isImplicitThis then [] else x) ++ memberLandmarks info
  | view, call callee args _ =>
    let pieces := landmarksAll cx args
    if view = .message then (pieces.head?.map (·.2)).getD []
    else if callee.ignoreParensImplicit.isPseudoDestructor then landmarks cx .whole callee
    else landmarks cx .whole callee ++ writtenLandmarks pieces
  | _, memberCall callee args _ conversion =>
    if conversion then landmarks cx .converted callee
    else landmarks cx .whole callee ++ writtenLandmarks (landmarksAll cx args)
  | _, operatorCall op args => operatorLandmarks op (landmarksAll cx args)
  | _, unary _ operand => landmarks cx .whole operand
  | view, binary _ lhs rhs =>
    match view with
    | .assertion => landmarks cx .unparenthesized lhs ++ landmarks cx .message rhs
    | .message => landmarks cx .message lhs
    | _ => landmarks cx .whole lhs ++
      -- a zero beside a pointer is written as `null`
      if lhs.pointerOperand?.isSome && rhs.ignoreImplicit.integerValue? == some 0 then []
      else landmarks cx .whole rhs
  | _, conditional cond yes no =>
    landmarks cx .whole cond ++ landmarks cx .whole yes ++ landmarks cx .whole no
  | view, paren inner =>
    match view with
    | .whole | .bare | .unparenthesized => landmarks cx .whole inner
    | view => landmarks cx view inner
  | view, implicitCast kind inner ty =>
    match view with
    | .whole | .unparenthesized =>
      if kind = .nullToPointer then []
      else if cx.pointerReturn && inner.isNullPointerConstant then
        [.null (implicitCast kind inner ty)]
      else landmarks cx .whole inner
    | view => landmarks cx view inner
  | _, cStyleCast ty inner =>
    landmarks cx (if ty.isVoid && inner.isAssertion then .assertion else .whole) inner
  | _, namedCast _ _ inner | _, functionalCast _ inner _ => landmarks cx .whole inner
  | _, construct _ args _ _ | _, temporaryObject _ args | _, unresolvedConstruct _ args
  | _, initList _ args => writtenLandmarks (landmarksAll cx args)
  | view, materializeTemporary inner _ =>
    match view with
    | .unparenthesized => landmarks cx .whole inner
    | view => landmarks cx view inner
  | _, newObject _ placement init _ => writtenLandmarks (landmarksAll cx placement) ++
      match init with
      | some e => landmarks cx .whole e
      | none => []
  | _, deleteObject inner _ | _, pseudoDestructor inner => landmarks cx .whole inner
  | _, traitOfExpr _ inner =>
    if inner.mentionsExplicitThis then [] else landmarks cx .whole inner
  | _, arraySubscript base index =>
    landmarks cx (if base.isDecayed then .bare else .whole) base ++ landmarks cx .whole index
  | _, dependentMember (some base) _ _ => landmarks cx .whole base
  -- names, numbers and what is already spelled
  | _, _ => []

def landmarksAll (cx : PrintContext) : List Expr → List (Expr × List Landmark)
  | [] => []
  | e :: es => (e, landmarks cx .whole e) :: landmarksAll cx es

end

end Expr

theorem all_lineBreak {ok : Char → Bool} (hline : ok '\n' = true) (hspace : ok ' ' = true)
    (depth : Nat) : All ok (lineBreak depth) := by
  intro c hc
  unfold lineBreak at hc
  rw [String.toList_ofList] at hc
  rcases List.mem_cons.1 hc with rfl | hc
  · exact hline
  · rw [List.eq_of_mem_replicate hc]
    exact hspace

/-- The landmarks of a text, in two printings: where one prints `null` for a null pointer constant,
the other may print the constant. -/
inductive Shows (cx : PrintContext) (pointer : Bool) (ok : Char → Bool) (margin : Nat) :
    List Landmark → String → String → Prop
  /-- names, types and symbols -/
  | code {s : String} (h : All ok s) : Shows cx pointer ok margin [] s s
  | lineBreak {depth : Nat} (h : margin ≤ depth) :
    Shows cx pointer ok margin [] (lineBreak depth) (lineBreak depth)
  | character (value : UInt32) (kind : CharKind) :
    Shows cx pointer ok margin [.character value kind]
      (Literal.character value kind) (Literal.character value kind)
  | string (value : String) :
    Shows cx pointer ok margin [.string value] (Literal.string value) (Literal.string value)
  | operator (ref : OperatorRef) :
    Shows cx pointer ok margin [.operator ref]
      (ref.op.memberName ref.params) (ref.op.memberName ref.params)
  | null {cast : Expr} (h : cast.isNulled = true) :
    Shows cx pointer ok margin [.null cast] "null" (cast.print (cx.returning pointer)).text
  | append {l m : List Landmark} {a b a' b' : String} (ha : Shows cx pointer ok margin l a a')
    (hb : Shows cx pointer ok margin m b b') :
    Shows cx pointer ok margin (l ++ m) (a ++ b) (a' ++ b')

section
variable {cx : PrintContext} {pointer : Bool} {ok : Char → Bool} {margin : Nat}
  {l m : List Landmark}

namespace Shows

section
variable {s a a' : String}

theorem before (hs : All ok s) (h : Shows cx pointer ok margin l a a') :
    Shows cx pointer ok margin l (s ++ a) (s ++ a') := .append (.code hs) h

theorem appendPlain {b b' : String} (h : Shows cx pointer ok margin l a a')
    (hb : Shows cx pointer ok margin [] b b') :
    Shows cx pointer ok margin l (a ++ b) (a' ++ b') := List.append_nil l ▸ h.append hb

theorem behind (h : Shows cx pointer ok margin l a a') (hs : All ok s) :
    Shows cx pointer ok margin l (a ++ s) (a' ++ s) := h.appendPlain (.code hs)

end

section
variable {s t : String} {p q p' q' : Printed}

theorem ofText (hs : All ok s) :
    Shows cx pointer ok margin [] (Printed.ofText s).text (Printed.ofText s).text := by
  rw [text_ofText]
  exact .code hs

theorem textAppend (hp : Shows cx pointer ok margin l p.text p'.text)
    (hq : Shows cx pointer ok margin m q.text q'.text) :
    Shows cx pointer ok margin (l ++ m) (p ++ q).text (p' ++ q').text := by
  rw [text_append, text_append]
  exact hp.append hq

theorem textAppendPlain (hp : Shows cx pointer ok margin l p.text p'.text)
    (hq : Shows cx pointer ok margin [] q.text q'.text) :
    Shows cx pointer ok margin l (p ++ q).text (p' ++ q').text :=
  List.append_nil l ▸ hp.textAppend hq

theorem textBefore (hs : All ok s) (hp : Shows cx pointer ok margin l p.text p'.text) :
    Shows cx pointer ok margin l (Printed.ofText s ++ p).text (Printed.ofText s ++ p').text :=
  (ofText hs).textAppend hp

theorem textBehind (hp : Shows cx pointer ok margin l p.text p'.text) (hs : All ok s) :
    Shows cx pointer ok margin l (p ++ Printed.ofText s).text (p' ++ Printed.ofText s).text :=
  hp.textAppendPlain (ofText hs)

theorem between (hs : All ok s) (hp : Shows cx pointer ok margin l p.text p'.text)
    (ht : All ok t) : Shows cx pointer ok margin l
      (Printed.ofText s ++ p ++ Printed.ofText t).text
      (Printed.ofText s ++ p' ++ Printed.ofText t).text :=
  (hp.textBefore hs).textBehind ht

theorem bracketed (hp : Shows cx pointer ok margin l p.text p'.text) (hs : All ok s)
    (hq : Shows cx pointer ok margin m q.text q'.text) (ht : All ok t) :
    Shows cx pointer ok margin (l ++ m)
      (p ++ Printed.ofText s ++ q ++ Printed.ofText t).text
      (p' ++ Printed.ofText s ++ q' ++ Printed.ofText t).text :=
  ((hp.textBehind hs).textAppend hq).textBehind ht

theorem suffixed (hok : AdmitsPhrases ok) (hp : Shows cx pointer ok margin l p.text p'.text)
    (e : Expr) (x : Suffix) (r : Option Request) :
    Shows cx pointer ok margin l (p.suffixed e x r).text (p'.suffixed e x r).text := by
  have hsuffix : All isPhrase x.text := by
    cases x with
    | byRef ty => exact (by decide : All isPhrase ".byRef")
    | ptr => decide
    | trait kind => cases kind <;> decide
  rw [text_suffixed, text_suffixed]
  exact hp.behind (hok.all hsuffix)

end

end Shows

inductive ShowsAll (cx : PrintContext) (pointer : Bool) (ok : Char → Bool) (margin : Nat) :
    List Landmark → List Printed → List Printed → Prop
  | nil : ShowsAll cx pointer ok margin [] [] []
  | cons {l m : List Landmark} {p p' : Printed} {ps ps' : List Printed}
    (hp : Shows cx pointer ok margin l p.text p'.text)
    (hps : ShowsAll cx pointer ok margin m ps ps') :
    ShowsAll cx pointer ok margin (l ++ m) (p :: ps) (p' :: ps')

theorem ShowsAll.joined (hok : AdmitsPhrases ok) {s : String} (hs : All ok s)
    {ps ps' : List Printed} (h : ShowsAll cx pointer ok margin l ps ps') :
    Shows cx pointer ok margin l (Printed.joined s ps).text (Printed.joined s ps').text := by
  induction h with
  | nil => exact .ofText hok.all_empty
  | cons hp hps ih =>
    cases hps with
    | nil => simpa [Printed.joined] using hp
    | cons => exact (hp.textBehind hs).textAppend ih

namespace Expr

section
variable (hok : AdmitsPhrases ok) {es : List Expr}
  (h : ∀ e ∈ es, Shows cx pointer ok margin (landmarks cx .whole e)
    (printView cx .whole e).text (printView (cx.returning pointer) .whole e).text)
include hok h

theorem showsAll_written : ShowsAll cx pointer ok margin (writtenLandmarks (landmarksAll cx es))
    (written (printAll cx es)) (written (printAll (cx.returning pointer) es)) := by
  induction es with
  | nil => exact .nil
  | cons e es ih =>
    have he := h e List.mem_cons_self
    have hes := ih fun x hx => h x (List.mem_cons_of_mem _ hx)
    unfold written writtenLandmarks at hes ⊢
    rw [printAll, printAll, landmarksAll, List.takeWhile_cons, List.takeWhile_cons,
      List.takeWhile_cons]
    cases e.isDefaultArg with
    | true => exact .nil
    | false => exact .cons he hes

theorem showsAll_callWritten (params : List Ty) :
    ShowsAll cx pointer ok margin (writtenLandmarks (landmarksAll cx es))
      (callWritten cx params (printAll cx es))
      (callWritten (cx.returning pointer) params (printAll (cx.returning pointer) es)) := by
  induction es generalizing params with
  | nil => exact .nil
  | cons e es ih =>
    have he := h e List.mem_cons_self
    have hes := ih (fun x hx => h x (List.mem_cons_of_mem _ hx)) params.tail
    unfold writtenLandmarks at hes ⊢
    rw [printAll, printAll, landmarksAll, List.takeWhile_cons, callWritten, callWritten]
    dsimp only
    cases e.isDefaultArg with
    | true => exact .nil
    | false =>
      refine .cons ?_ hes
      unfold argument
      dsimp only
      split
      · exact he.suffixed hok _ _ _
      · exact he

theorem shows_arguments : Shows cx pointer ok margin (writtenLandmarks (landmarksAll cx es))
    (arguments (printAll cx es)).text (arguments (printAll (cx.returning pointer) es)).text :=
  (showsAll_written hok h).joined hok (hok.all (by decide))

theorem shows_callArguments (params : Option (List Ty)) :
    Shows cx pointer ok margin (writtenLandmarks (landmarksAll cx es))
      (callArguments cx params (printAll cx es)).text
      (callArguments (cx.returning pointer) params (printAll (cx.returning pointer) es)).text :=
  (showsAll_callWritten hok h _).joined hok (hok.all (by decide))

theorem shows_operatorText (op : OverloadedOp) :
    Shows cx pointer ok margin (operatorLandmarks op (landmarksAll cx es))
      (operatorText op (printAll cx es)).text
      (operatorText op (printAll (cx.returning pointer) es)).text := by
  have hspelling : All ok op.spelling := hok.all (by cases op <;> decide +kernel)
  have hspace : All ok " " := hok.all (by decide)
  have hopen : All ok "(" := hok.all (by decide)
  have hclose : All ok ")" := hok.all (by decide)
  have harguments : ∀ rest ⊆ es, Shows cx pointer ok margin
      (writtenLandmarks (landmarksAll cx rest)) (arguments (printAll cx rest)).text
      (arguments (printAll (cx.returning pointer) rest)).text :=
    fun rest hrest => shows_arguments hok fun e he => h e (hrest he)
  match es with
  | [] => cases op <;> exact .ofText hok.all_empty
  | [x] =>
    have hx := h x List.mem_cons_self
    cases op
    case arrow => exact hx
    case call => exact hx.bracketed hopen (harguments [] (by simp)) hclose
    all_goals exact ((Shows.ofText hspelling).textBehind hspace).textAppend hx
  | [x, y] =>
    have hx := h x List.mem_cons_self
    have hy := h y (List.mem_cons_of_mem _ List.mem_cons_self)
    have hsymbol := hx.textAppendPlain (.between hspace (.ofText hspelling) hspace)
    cases op
    case arrow => exact hx
    case plusPlus | minusMinus => exact (hx.textBehind hspace).textBehind hspelling
    case call => exact hx.bracketed hopen (harguments [y] (by simp)) hclose
    case subscript => exact hx.bracketed (hok.all (by decide)) hy (hok.all (by decide))
    all_goals exact hsymbol.textAppend hy
  | x :: y :: z :: rest =>
    have hx := h x List.mem_cons_self
    cases op
    case arrow => exact hx
    case plusPlus | minusMinus => exact (hx.textBehind hspace).textBehind hspelling
    case call =>
      exact hx.bracketed hopen (harguments (y :: z :: rest) (List.subset_cons_self _ _)) hclose
    all_goals exact harguments _ (List.Subset.refl _)

theorem shows_constructText {ty : Ty} (hty : All ok (ty.render cx.names))
    (listInit stdInitList : Bool) :
    Shows cx pointer ok margin (writtenLandmarks (landmarksAll cx es))
      (constructText cx ty (printAll cx es) listInit stdInitList).text
      (constructText (cx.returning pointer) ty (printAll (cx.returning pointer) es) listInit
        stdInitList).text := by
  have harguments := shows_arguments hok h
  have hnamed : ∀ c : Bool, All ok (if c then ty.render cx.names else "") := by
    rintro (- | -)
    · exact hok.all_empty
    · exact hty
  unfold constructText
  rw [printAll_eq, printAll_eq] at harguments ⊢
  dsimp only
  simp only [List.length_map, List.map_map, Function.comp_def]
  refine .textBefore (hnamed _) ?_
  split
  · exact .between (hok.all (by decide)) harguments (hok.all (by decide))
  · exact harguments

theorem shows_callText {callee : Expr} {x x' : Printed} (params : Option (List Ty))
    (hx : Shows cx pointer ok margin l x.text x'.text) :
    Shows cx pointer ok margin
      (if callee.ignoreParensImplicit.isPseudoDestructor then l
        else l ++ writtenLandmarks (landmarksAll cx es))
      (callText cx callee x params (printAll cx es)).text
      (callText (cx.returning pointer) callee x' params
        (printAll (cx.returning pointer) es)).text := by
  unfold callText
  split
  · exact hx
  · exact hx.bracketed (hok.all (by decide)) (shows_callArguments hok h params)
      (hok.all (by decide))

theorem shows_newText {ty : Ty} {init init' : Printed} (hty : All ok (ty.render cx.names))
    (hinit : Shows cx pointer ok margin l init.text init'.text) :
    Shows cx pointer ok margin (writtenLandmarks (landmarksAll cx es) ++ l)
      (newText cx ty (printAll cx es) init).text
      (newText (cx.returning pointer) ty (printAll (cx.returning pointer) es) init').text := by
  have hwritten := showsAll_written hok h
  unfold newText
  generalize writtenLandmarks (landmarksAll cx es) = m at hwritten ⊢
  generalize written (printAll cx es) = ps at hwritten ⊢
  generalize written (printAll (cx.returning pointer) es) = ps' at hwritten ⊢
  have hjoined := hwritten.joined hok (hok.all (by decide : All isPhrase ", "))
  cases hwritten with
  | nil =>
    exact .textAppend (.textBefore (hok.all (by decide)) (.ofText hty)) hinit
  | cons hp hps =>
    have hargs := hjoined.textAppendPlain
      (.textBefore (hok.all (by decide : All isPhrase ", ")) (.ofText hty))
    exact .between (hok.all (by decide)) (hargs.textAppend hinit) (hok.all (by decide))

end

theorem shows_unaryText (hok : AdmitsPhrases ok) (op : UnaryOp) (operand : Expr) {x x' : Printed}
    (hx : Shows cx pointer ok margin l x.text x'.text) :
    Shows cx pointer ok margin l (unaryText op operand x).text
      (unaryText op operand x').text := by
  have hspelling : All ok op.spelling := hok.all (by cases op <;> decide)
  have hsymbol : All ok (if operand.isThis then "" else op.spelling) := by
    split
    · exact hok.all_empty
    · exact hspelling
  unfold unaryText
  split
  · exact hx.textBehind hspelling
  · have hspace : ∀ c : Bool, All ok (if c then " " else "") := fun c => hok.all_ite _ (by decide)
    exact .textAppend (.textBefore hsymbol (.ofText (hspace _))) hx

/-! ## Names and types -/

variable (hok : AdmitsPhrases ok) (hn : cx.names.Spelled (All ok))
include hok hn

theorem all_templateArgs {args : List TemplateArg}
    (h : ∀ s ∈ TemplateArg.spellingsAll args, All ok s) : All ok (cx.templateArgs args) := by
  have hargs := all_commaSeparated hok (TemplateArg.all_renderAll hok hn h)
  unfold PrintContext.templateArgs
  split
  · exact hok.all_empty
  · exact all_append (all_append (hok.all (by decide)) hargs) (hok.all (by decide))

theorem all_qualifier {ty : Option Ty} (h : ∀ s ∈ (ty.map Ty.spellings).getD [], All ok s) :
    All ok (cx.qualifier ty) := by
  cases ty with
  | none => exact hok.all_empty
  | some ty => exact all_append (Ty.all_render hok hn h) (hok.all (by decide))

theorem shows_binaryText (op : BinaryOp) {lhs : Expr} (rhs : Expr) {x x' y y' : Printed}
    (hlhs : ∀ s ∈ lhs.spellings, All ok s) (hx : Shows cx pointer ok margin l x.text x'.text)
    (hy : Shows cx pointer ok margin m y.text y'.text) :
    Shows cx pointer ok margin
      (l ++ if lhs.pointerOperand?.isSome && rhs.ignoreImplicit.integerValue? == some 0 then []
        else m)
      (binaryText cx op lhs rhs x y).text
      (binaryText (cx.returning pointer) op lhs rhs x' y').text := by
  have hspelling : All ok op.spelling := hok.all (by cases op <;> decide)
  have hsymbol := hx.textAppendPlain (.between (hok.all (by decide : All isPhrase " "))
    (.ofText hspelling) (hok.all (by decide : All isPhrase " ")))
  unfold binaryText
  refine hsymbol.textAppend ?_
  cases hty : lhs.pointerOperand? with
  | none => exact hy
  | some ty =>
    cases rhs.ignoreImplicit.integerValue? with
    | none => exact hy
    | some value =>
      dsimp only
      by_cases hzero : value = 0
      · rw [if_pos hzero, if_pos hzero, if_pos (by simp [hzero])]
        exact .ofText (hok.all (by decide))
      · rw [if_neg hzero, if_neg hzero, if_neg (by simp [hzero])]
        have hcast := Ty.all_render hok hn fun s hs => hlhs s (mem_spellings_pointerOperand hty hs)
        exact .textAppend (.between (hok.all (by decide)) (.ofText hcast) (hok.all (by decide))) hy

theorem shows_memberText {info : MemberInfo} (hmember : All ok info.member)
    (hargs : ∀ s ∈ TemplateArg.spellingsAll info.templateArgs, All ok s) :
    Shows cx pointer ok margin (info.operator.toList.map .operator) (memberText cx info)
      (memberText cx info) := by
  unfold memberText
  refine .behind ?_ (all_templateArgs hok hn hargs)
  cases info.operator with
  | none => exact .code (Identifier.all_sanitize hok hmember)
  | some ref => exact .operator ref

theorem shows_memberAccess {base : Expr} {x x' : Printed} {info : MemberInfo}
    (hinfo : ∀ s ∈ (Expr.member base info).spellings, All ok s)
    (hx : Shows cx pointer ok margin l x.text x'.text) :
    Shows cx pointer ok margin
      ((if base.ignoreImplicit.isImplicitThis then [] else l) ++ memberLandmarks info)
      (memberAccess cx base x info).text
      (memberAccess (cx.returning pointer) base x' info).text := by
  have hlast : Shows cx pointer ok margin (memberLandmarks info)
      (if info.anonymous then "" else memberText cx info)
      (if info.anonymous then "" else memberText cx info) := by
    unfold memberLandmarks
    split
    · exact .code hok.all_empty
    · exact shows_memberText hok hn (hinfo _ List.mem_cons_self)
        fun s hs => hinfo s (by simp [spellings, hs])
  have hqualifier : All ok (cx.qualifier info.qualifier) :=
    all_qualifier hok hn fun s hs => hinfo s (by simp [spellings, hs])
  have hdot : All ok (if base.ignoreImplicit.isAnonymousMember then "" else ".") := by
    split
    · exact hok.all_empty
    · exact hok.all (by decide)
  unfold memberAccess
  dsimp only
  split
  · rw [text_ofText, text_ofText]
    exact hlast.before (hok.all_ite _ (by decide))
  · refine hx.textAppend ?_
    simp only [text_append, text_ofText]
    exact hlast.before (all_append hdot hqualifier)

/-! ## Forms of expressions -/

section
variable {view : View}

theorem shows_declRef {name : String} {ty : Ty} {qualifier : Option Ty} {args : List TemplateArg}
    (h : (declRef name ty qualifier args).Spelled (All ok)) :
    Shows cx pointer ok margin (landmarks cx view (declRef name ty qualifier args))
      (printView cx view (declRef name ty qualifier args)).text
      (printView (cx.returning pointer) view (declRef name ty qualifier args)).text := by
  have hqualifier : All ok (cx.qualifier qualifier) :=
    all_qualifier hok hn fun s hs => h.own s (by simp [spellings, hs])
  have hargs : All ok (cx.templateArgs args) :=
    all_templateArgs hok hn fun s hs => h.own s (by simp [spellings, hs])
  have hname := Identifier.all_sanitize hok (h.own name List.mem_cons_self)
  unfold landmarks printView
  exact ((Shows.ofText hqualifier).textBehind hname).textBehind hargs

omit hn in
theorem shows_conditional {cond yes no : Expr}
    (h : ∀ e ∈ [cond, yes, no], Shows cx pointer ok margin (landmarks cx .whole e)
      (printView cx .whole e).text (printView (cx.returning pointer) .whole e).text) :
    Shows cx pointer ok margin (landmarks cx view (conditional cond yes no))
      (printView cx view (conditional cond yes no)).text
      (printView (cx.returning pointer) view (conditional cond yes no)).text := by
  have hquestion := (h cond (by simp)).textBehind (hok.all (by decide : All isPhrase " ? "))
  have hcolon := (hquestion.textAppend (h yes (by simp))).textBehind
    (hok.all (by decide : All isPhrase " : "))
  unfold landmarks printView
  exact hcolon.textAppend (h no (by simp))

theorem shows_namedCast {kind : NamedCastKind} {ty : Ty} {inner : Expr}
    (hty : ∀ s ∈ ty.spellings, All ok s)
    (hinner : Shows cx pointer ok margin (landmarks cx .whole inner)
      (printView cx .whole inner).text (printView (cx.returning pointer) .whole inner).text) :
    Shows cx pointer ok margin (landmarks cx view (namedCast kind ty inner))
      (printView cx view (namedCast kind ty inner)).text
      (printView (cx.returning pointer) view (namedCast kind ty inner)).text := by
  have hrender : All ok ((castTarget ty).render cx.names) :=
    Ty.all_render hok hn fun s hs => hty s (mem_spellings_castTarget hs)
  unfold landmarks printView
  refine .textBehind (l := landmarks cx .whole inner) (.textAppend (l := []) ?_ hinner)
    (hok.all (by decide))
  exact .textBehind (.textBefore (hok.all (by decide)) (.ofText hrender)) (hok.all (by decide))

theorem shows_dependentMember {base : Option Expr} {name : String} {args : List TemplateArg}
    (h : (dependentMember base name args).Spelled (All ok))
    (hbase : ∀ e ∈ base, Shows cx pointer ok margin (landmarks cx .whole e)
      (printView cx .whole e).text (printView (cx.returning pointer) .whole e).text) :
    Shows cx pointer ok margin (landmarks cx view (dependentMember base name args))
      (printView cx view (dependentMember base name args)).text
      (printView (cx.returning pointer) view (dependentMember base name args)).text := by
  have hargs : All ok (cx.templateArgs args) :=
    all_templateArgs hok hn fun s hs => h.own s (by simp [spellings, hs])
  have hname : All ok name := h.own name List.mem_cons_self
  cases base with
  | none =>
    unfold landmarks printView
    exact (Shows.ofText hargs).textBefore hname |>.textBefore hok.all_empty
  | some base =>
    have hdotted := (hbase base rfl).textBehind (hok.all (by decide : All isPhrase "."))
    have hwhole := hdotted.textAppendPlain (.textBefore hname (.ofText hargs))
    unfold landmarks printView
    exact hwhole

end

-- the other printing writes `null` only where this one does
variable (hpointer : pointer = true → cx.pointerReturn = true)
include hpointer

omit hn in
theorem shows_implicitCast (kind : CastKind) {inner : Expr} (ty : Ty)
    (hinner : Shows cx pointer ok margin (landmarks cx .whole inner)
      (printView cx .whole inner).text (printView (cx.returning pointer) .whole inner).text) :
    Shows cx pointer ok margin (landmarks cx .whole (implicitCast kind inner ty))
      (printView cx .whole (implicitCast kind inner ty)).text
      (printView (cx.returning pointer) .whole (implicitCast kind inner ty)).text := by
  by_cases hkind : kind = .nullToPointer
  · rw [hkind, printView_nullToPointer, printView_nullToPointer, landmarks, if_pos rfl]
    exact .ofText (hok.all (by decide))
  have hdecays : Shows cx pointer ok margin (landmarks cx .whole inner)
      (decayed kind inner (printView cx .whole inner)).text
      (decayed kind inner (printView (cx.returning pointer) .whole inner)).text := by
    unfold decayed
    split
    · exact hinner.suffixed hok _ _ _
    · exact hinner
  have hcast := fun cx => printView_implicitCast cx inner ty hkind
  rw [landmarks, if_neg hkind]
  by_cases hnull : (cx.pointerReturn && inner.isNullPointerConstant) = true
  · rw [if_pos hnull, hcast cx, if_pos hnull, text_ofText]
    obtain ⟨-, hinner⟩ := Bool.and_eq_true_iff.1 hnull
    exact .null (by simp [isNulled, hkind, hinner])
  · have hother : ¬ (pointer && inner.isNullPointerConstant) = true := fun h =>
      hnull (Bool.and_eq_true_iff.2 ((Bool.and_eq_true_iff.1 h).imp_left hpointer))
    rw [if_neg hnull, hcast cx, hcast, if_neg hnull, if_neg hother]
    exact hdecays

/-! ## All expressions -/

mutual

/-- Any view of an expression is printed with its landmarks. -/
theorem shows_printView (view : View) : (e : Expr) → e.Spelled (All ok) →
    Shows cx pointer ok margin (landmarks cx view e) (printView cx view e).text
      (printView (cx.returning pointer) view e).text
  | integerLiteral value kind, _ => .ofText (Literal.all_integer hok value kind)
  | floatLiteral value kind, _ => .ofText (Literal.all_float hok value kind)
  | charLiteral value kind, _ => by
    unfold landmarks printView
    rw [text_ofText]
    exact .character value kind
  | stringLiteral value wide, _ => by
    unfold landmarks printView
    rw [text_ofText]
    exact .string value
  | boolLiteral value, _ => by cases value <;> exact .ofText (hok.all (by decide))
  | nullPtr, _ => .ofText (hok.all (by decide))
  | thisPtr implicit, _ => by cases implicit <;> exact .ofText (hok.all (by decide))
  | defaultArg, _ => .ofText hok.all_empty
  | unknown spelling, h => .ofText (h.own spelling List.mem_cons_self)
  | declRef name ty qualifier args, h => shows_declRef hok hn h
  | member base info, h => by
    have hbase := shows_printView .whole base (h.child List.mem_cons_self)
    unfold landmarks printView
    dsimp only
    split
    · exact hbase
    · exact shows_memberAccess hok hn h.own hbase
  | call callee args params, h => by
    have hcallee := shows_printView .whole callee (h.child List.mem_cons_self)
    have hargs := shows_printEach args fun e he => h.child (List.mem_cons_of_mem _ he)
    unfold landmarks printView
    dsimp only
    split
    · cases args with
      | nil => exact .ofText hok.all_empty
      | cons e es => exact hargs e List.mem_cons_self
    · exact shows_callText hok hargs params hcallee
  | memberCall callee args params conversion, h => by
    have hcallee := fun view => shows_printView view callee (h.child List.mem_cons_self)
    have hargs := shows_printEach args fun e he => h.child (List.mem_cons_of_mem _ he)
    unfold landmarks printView
    split
    · exact hcallee .converted
    · exact (hcallee .whole).bracketed (hok.all (by decide))
        (shows_callArguments hok hargs params) (hok.all (by decide))
  | operatorCall op args, h => by
    unfold landmarks printView
    exact shows_operatorText hok (shows_printEach args fun e he => h.child he) op
  | unary op operand, h => by
    unfold landmarks printView
    exact shows_unaryText hok op operand
      (shows_printView .whole operand (h.child List.mem_cons_self))
  | binary op lhs rhs, h => by
    have hchild : lhs.Spelled (All ok) := h.child List.mem_cons_self
    have hl := fun view => shows_printView view lhs hchild
    have hr := fun view => shows_printView view rhs (h.child (by simp [children]))
    have hbinary := shows_binaryText hok hn op rhs hchild.own (hl .whole) (hr .whole)
    unfold landmarks printView
    cases view with
    | assertion =>
      exact ((hl .unparenthesized).textBehind (hok.all (by decide))).textAppend (hr .message)
    | message => exact hl .message
    | whole | bare | unparenthesized | converted => exact hbinary
  | conditional cond yes no, h => by
    have hcond := shows_printView .whole cond (h.child List.mem_cons_self)
    have hyes := shows_printView .whole yes (h.child (by simp [children]))
    have hno := shows_printView .whole no (h.child (by simp [children]))
    refine shows_conditional hok (List.forall_mem_cons.2 ⟨hcond, ?_⟩)
    exact List.forall_mem_cons.2 ⟨hyes, List.forall_mem_singleton.2 hno⟩
  | paren inner, h => by
    have hinner := fun view => shows_printView view inner (h.child List.mem_cons_self)
    unfold landmarks printView
    cases view with
    | whole | bare => exact .between (hok.all (by decide)) (hinner .whole) (hok.all (by decide))
    | unparenthesized => exact hinner .whole
    | converted | assertion | message => exact hinner _
  | implicitCast kind inner ty, h => by
    have hinner := fun view => shows_printView view inner (h.child List.mem_cons_self)
    have hwhole := shows_implicitCast hok hpointer kind ty (hinner .whole)
    unfold landmarks printView
    cases view with
    | whole | unparenthesized => exact hwhole
    | bare | converted | assertion | message => exact hinner _
  | cStyleCast ty inner, h => by
    have hinner := fun view => shows_printView view inner (h.child List.mem_cons_self)
    have hty := Ty.all_render hok hn h.own
    unfold landmarks printView
    split
    · exact .between (hok.all (by decide)) (hinner .assertion) (hok.all (by decide))
    · exact .textAppend (.between (hok.all (by decide)) (.ofText hty) (hok.all (by decide)))
        (hinner .whole)
  | namedCast kind ty inner, h =>
    shows_namedCast hok hn h.own (shows_printView .whole inner (h.child List.mem_cons_self))
  | functionalCast ty inner parens, h => by
    have hinner := shows_printView .whole inner (h.child List.mem_cons_self)
    unfold landmarks printView
    refine .textBefore (Ty.all_render hok hn h.own) ?_
    split
    · exact .between (hok.all (by decide)) hinner (hok.all (by decide))
    · exact hinner
  | construct ty args listInit stdInitList, h => by
    unfold landmarks printView
    exact shows_constructText hok (shows_printEach args fun e he => h.child he)
      (Ty.all_render hok hn h.own) listInit stdInitList
  | temporaryObject ty args, h | unresolvedConstruct ty args, h => by
    have hargs := shows_arguments hok (shows_printEach args fun e he => h.child he)
    unfold landmarks printView
    exact (Shows.ofText (Ty.all_render hok hn h.own)).bracketed (hok.all (by decide)) hargs
      (hok.all (by decide))
  | materializeTemporary inner ty, h => by
    have hinner := fun view => shows_printView view inner (h.child List.mem_cons_self)
    unfold landmarks printView
    cases view <;> exact hinner _
  | newObject ty placement init style, h => by
    have hargs := shows_printEach placement fun e he => h.child (List.mem_append_left _ he)
    have hty := Ty.all_render hok hn h.own
    unfold landmarks printView
    refine shows_newText hok hargs hty ?_
    cases init with
    | none => exact .ofText hok.all_empty
    | some e =>
      have hvalue := shows_printView .whole e (h.child (by simp [children]))
      dsimp only
      split
      · exact .between (hok.all (by decide)) hvalue (hok.all (by decide))
      · exact hvalue
  | deleteObject inner _, h | pseudoDestructor inner, h => by
    unfold landmarks printView
    exact .between (hok.all (by decide)) (shows_printView .whole inner (h.child List.mem_cons_self))
      (hok.all (by decide))
  | traitOfType kind ty, h => by
    have hsuffix : All ok kind.suffix := hok.all (by cases kind <;> decide)
    unfold landmarks printView
    exact .textBehind (.between (hok.all (by decide)) (.ofText (Ty.all_render hok hn h.own))
      (hok.all (by decide))) hsuffix
  | traitOfExpr kind inner, h => by
    have hsuffix : All ok kind.suffix := hok.all (by cases kind <;> decide)
    unfold landmarks printView
    split
    · exact .textBefore (hok.all (by decide)) (.ofText hsuffix)
    · exact (shows_printView .whole inner (h.child List.mem_cons_self)).suffixed hok _ _ _
  | arraySubscript base index, h => by
    have hbase := fun view => shows_printView view base (h.child List.mem_cons_self)
    have hindex := shows_printView .whole index (h.child (by simp [children]))
    unfold landmarks printView
    exact (hbase _).bracketed (hok.all (by decide)) hindex (hok.all (by decide))
  | initList ty exprs, h => by
    have hexprs := shows_arguments hok (shows_printEach exprs fun e he => h.child he)
    unfold landmarks printView
    dsimp only
    split
    · exact .between (hok.all (by decide)) hexprs (hok.all (by decide))
    · exact (Shows.ofText (Ty.all_render hok hn h.own)).bracketed (hok.all (by decide)) hexprs
        (hok.all (by decide))
  | dependentMember none name args, h => shows_dependentMember hok hn h nofun
  | dependentMember (some base) name args, h => by
    have hbase := shows_printView .whole base (h.child (by simp [children]))
    refine shows_dependentMember hok hn h fun e he => ?_
    rw [← Option.some.inj he]
    exact hbase

theorem shows_printEach : (es : List Expr) → (∀ e ∈ es, e.Spelled (All ok)) →
    ∀ e ∈ es, Shows cx pointer ok margin (landmarks cx .whole e) (printView cx .whole e).text
      (printView (cx.returning pointer) .whole e).text
  | [], _ => fun e he => absurd he List.not_mem_nil
  | x :: xs, h => by
    have hx := shows_printView .whole x (h x List.mem_cons_self)
    intro e he
    rcases List.mem_cons.1 he with rfl | he
    · exact hx
    · exact shows_printEach xs (fun y hy => h y (List.mem_cons_of_mem _ hy)) e he

end

end Expr
end

end DBindings
