import DBindings.Emit.Method
import DBindings.Proofs.Bodies.Literals
import DBindings.Proofs.Printing.Inline
import DBindings.Proofs.Text.Comments
import Mathlib.Data.List.Perm.Basic

/-!
# Methods that are commented out

The binding, the signature and the lines of the body of a method are made comments one by one.  The
signature of a defaulted method always is one, the other lines only if the method is commented out.

* `Stmt.not_isComment_lines`          no line of a block is a comment;
* `isComment_definition`              the lines behind a signature;
* `RecordDecl.methodBlock_comments`   when all lines of a method are comments or none is.
-/

namespace DBindings
open Printed Text

theorem Text.indents_of_all {s : String} (h : All isInline s) : indents s.toList = true :=
  indents_of_not_mem fun hmem => nomatch h '\n' hmem

/-! ## The lines of blocks -/

/-- In printed code that is indented, no line feed has a slash behind it. -/
theorem Shows.indents {cx : PrintContext} {pointer : Bool} {l : List Landmark} {a b : String}
    (h : Shows cx pointer isInline 1 l a b) : indents a.toList = true := by
  induction h with
  | code h => exact indents_of_all h
  | @lineBreak depth h =>
    obtain ⟨depth, rfl⟩ := Nat.exists_eq_add_of_le' h
    rw [DBindings.lineBreak, String.toList_ofList]
    refine Bool.and_eq_true_iff.2 ⟨rfl, indents_of_not_mem fun hmem => ?_⟩
    exact absurd (List.eq_of_mem_replicate hmem) (by decide)
  | character value kind => exact indents_of_all (Literal.inline_character value kind)
  | string value => exact indents_of_all (Literal.inline_string value)
  | operator ref => exact indents_of_all (ref.op.inline_memberName ref.params)
  | null => exact indents_of_all (by decide)
  | append _ _ iha ihb =>
    rw [String.toList_append]
    exact indents_append iha ihb

/-- The lines of a block are indented, save for the braces. -/
theorem Stmt.not_isComment_lines {cx : PrintContext} (hn : cx.names.Spelled (All isInline))
    {body : Stmt} (hcompound : body.isCompound = true) (h : body.Spelled (All isInline)) :
    ∀ line ∈ lines (body.print cx).text, isComment line = false := by
  cases body
  case compound ss =>
    have hinside : Shows cx cx.pointerReturn isInline 1 _ (printBlock cx 1 ss).text _ :=
      shows_printBlock admits_isInline hn id (Nat.le_refl 1) ss h
    have htext : ((compound ss).print cx).text =
        "\x7b" ++ ((printBlock cx 1 ss).text ++ "\n\x7d") := by
      rw [print, text_compound, String.append_assoc, String.append_assoc]
      rfl
    have hindents : indents ((compound ss).print cx).text.toList = true := by
      rw [htext, String.toList_append, String.toList_append]
      exact indents_append (by decide) (indents_append hinside.indents (by decide))
    intro line hline
    refine not_isComment_of_mem_lines ?_ hindents hline
    unfold isComment
    rw [htext, String.toList_append]
    rfl
  all_goals exact nomatch hcompound

/-! ## Definitions -/

theorem isComment_bodyLine (commentOut : Bool) (line : String) :
    isComment (bodyLine commentOut line) = (commentOut || isComment line) := by
  unfold bodyLine
  cases commentOut with
  | false => exact isComment_rewritten line
  | true => exact isComment_append (by decide) _

/-- What stands around the lines of a body is indented, or a brace. -/
theorem forall_mem_bodyLines {P : String → Prop} (hindented : ∀ line, P ("    " ++ line))
    (hopen : P "\x7b") (hclose : P "\x7d") (initializers : List String) {body : Option String}
    (h : ∀ text ∈ body, ∀ line ∈ lines text, P line) :
    ∀ line ∈ bodyLines initializers body, P line := by
  have hmargins : ∀ ls : List String, ∀ line ∈ ls.map ("    " ++ ·), P line :=
    fun ls => List.forall_mem_map.2 fun line _ => hindented line
  unfold bodyLines
  cases initializers with
  | nil =>
    cases body with
    | none => exact fun _ hline => absurd hline List.not_mem_nil
    | some text => exact h text rfl
  | cons first rest =>
    refine List.forall_mem_append.2 ⟨List.forall_mem_append.2
      ⟨List.forall_mem_append.2 ⟨List.forall_mem_cons.2 ⟨hopen, ?_⟩, hmargins _⟩, ?_⟩,
      List.forall_mem_singleton.2 hclose⟩
    · exact List.forall_mem_singleton.2 (hindented "// initializer list")
    · cases body with
      | none => exact fun _ hline => absurd hline List.not_mem_nil
      | some text => exact List.forall_mem_cons.2 ⟨hindented "// ctor body", hmargins _⟩

/-- Behind the signature, the lines of a function are comments if they are made so. -/
theorem isComment_definition (cx : PrintContext) (signature : String) {body : Option Stmt}
    (initializers : List String) (commentOut : Bool)
    (h : ∀ b ∈ body, ∀ line ∈ lines (b.print cx).text, isComment line = false) :
    ∀ line ∈ (definition cx signature body initializers commentOut).lines.tail,
      isComment line = commentOut := by
  have hlines : ∀ text : Option String, (∀ t ∈ text, ∀ line ∈ lines t, isComment line = false) →
      ∀ line ∈ (bodyLines initializers text).map (bodyLine commentOut),
        isComment line = commentOut := by
    intro text htext line hline
    obtain ⟨line, hmem, rfl⟩ := List.mem_map.1 hline
    have hcomment : isComment line = false :=
      forall_mem_bodyLines (fun rest => isComment_append (by decide) rest) (by decide) (by decide)
        initializers htext line hmem
    rw [isComment_bodyLine, hcomment, Bool.or_false]
  unfold definition
  dsimp only
  split
  · exact fun _ hline => absurd hline List.not_mem_nil
  · next body =>
    split
    · split
      · exact fun _ hline => absurd hline List.not_mem_nil
      · exact hlines none fun _ ht => absurd ht (Option.not_mem_none _)
    · exact hlines _ fun t ht => Option.some.inj ht ▸ h body rfl

/-! ## Methods -/

/-- The lines of a method: the first one is a comment by one rule, the others by another one. -/
theorem alike_iff {ls rest : List String} {first : String} {mark commentOut : Bool}
    (h : ls.Perm (first :: rest)) (hfirst : isComment first = (mark || commentOut))
    (hrest : ∀ line ∈ rest, isComment line = commentOut) :
    (commentOut = true → ∀ line ∈ ls, isComment line = true) ∧
    (((∀ line ∈ ls, isComment line = true) ∨ ∀ line ∈ ls, isComment line = false) ↔
      (mark = true → commentOut = true ∨ ls.length ≤ 1)) := by
  have hmem : ∀ b, (∀ line ∈ ls, isComment line = b) ↔
      isComment first = b ∧ ∀ line ∈ rest, isComment line = b := by
    intro b
    have hcons : (∀ line ∈ ls, isComment line = b) ↔
        ∀ line ∈ first :: rest, isComment line = b := by simp only [h.mem_iff]
    rw [hcons, List.forall_mem_cons]
  cases commentOut with
  | true =>
    have hall := (hmem true).2 ⟨hfirst.trans (Bool.or_true mark), hrest⟩
    exact ⟨fun _ => hall, iff_of_true (Or.inl hall) fun _ => Or.inl rfl⟩
  | false =>
    refine ⟨nofun, ?_⟩
    cases mark with
    | false => exact iff_of_true (Or.inr ((hmem false).2 ⟨hfirst, hrest⟩)) nofun
    | true =>
      rw [h.length_eq]
      cases rest with
      | nil =>
        have hall := (hmem true).2 ⟨hfirst, fun _ hline => absurd hline List.not_mem_nil⟩
        exact iff_of_true (Or.inl hall) fun _ => Or.inr (Nat.le_refl 1)
      | cons second rest =>
        have hsecond := hrest second List.mem_cons_self
        refine iff_of_false ?_ fun hlength => ?_
        · rintro (hall | hnone)
          · have htrue := ((hmem true).1 hall).2 second List.mem_cons_self
            exact absurd (htrue.symm.trans hsecond) (by decide)
          · exact absurd (hfirst.symm.trans ((hmem false).1 hnone).1) (by decide)
        · exact absurd ((hlength rfl).resolve_left nofun) (by simp)

namespace RecordDecl
variable {env : EmitEnv} {r : RecordDecl} {head : DeclHead} {f : Function}

theorem isComment_attributes (info : MethodInfo) (access : Access) (tag : RecordTag) (t : String) :
    isComment (info.attributes f access tag ++ t) = false := by
  have hfront : ∀ inline : Bool,
      let front := (if inline then "/* inline */ " else "") ++ access.keyword tag
      isComment front = false ∧ 2 ≤ front.toList.length := by
    cases access <;> cases tag <;> decide
  obtain ⟨hcomment, hlength⟩ := hfront f.inlineBody?.isSome
  unfold MethodInfo.attributes
  simp only [String.append_assoc]
  rw [← String.append_assoc, isComment_append hlength]
  exact hcomment

theorem isComment_signature (info : MethodInfo) (cls : MethodClass) (commentOut : Bool)
    (t : String) : isComment ((signature env r head f info cls commentOut).text ++ t) =
      (info.isDefaulted || commentOut) := by
  unfold signature
  simp only [text_append, text_ofText, String.append_assoc]
  cases info.isDefaulted with
  | true => exact isComment_append (by decide : 2 ≤ "// (default) ".toList.length) _
  | false =>
    cases commentOut with
    | true => exact isComment_append (by decide : 2 ≤ "// ".toList.length) _
    | false =>
      rw [if_neg Bool.false_ne_true, if_neg Bool.false_ne_true, String.empty_append]
      exact isComment_attributes info _ _ _

theorem isComment_bindingLines (cls : MethodClass) (commentOut : Bool) :
    ∀ line ∈ bindingLines env r head f cls commentOut, isComment line = commentOut := by
  have hbinding : ∀ text, isComment text = false →
      ∀ line ∈ [if commentOut then "// " ++ text else text], isComment line = commentOut := by
    intro text htext line hline
    rw [List.mem_singleton.1 hline]
    cases commentOut with
    | true => exact isComment_append (by decide) text
    | false => exact htext
  unfold bindingLines
  split
  · refine hbinding _ ?_
    simp only [String.append_assoc]
    exact isComment_append (by decide) _
  · refine hbinding _ ?_
    rw [String.append_assoc]
    exact isComment_append (by decide) _
  · exact fun _ hline => absurd hline List.not_mem_nil

theorem diff_markerLines (info : MethodInfo) (a b : List String) :
    ((a ++ info.markerLines ++ b).diff info.markerLines).Perm (a ++ b) := by
  have hself : ∀ m l : List String, (m ++ l).diff m = l := by
    intro m l
    induction m with
    | nil => rfl
    | cons x m ih => rw [List.cons_append, List.diff_cons, List.erase_cons_head, ih]
  have hperm : (a ++ info.markerLines ++ b).Perm (info.markerLines ++ (a ++ b)) := by
    rw [List.append_assoc]
    exact List.perm_append_comm_assoc _ _ _
  exact (hperm.diff_right _).trans (.of_eq (hself _ _))

section
variable (hn : env.names.Spelled (All isInline)) (polymorphic : Bool)
  (hbody : ∀ body ∈ f.inlineBody?, body.isCompound = true ∧ body.Spelled (All isInline) ∨
    ∀ line ∈ lines (body.print
      { env.print with polymorphic, pointerReturn := f.returnType.isPointer }).text,
      isComment line = false)
include hn hbody

/-- The signature of a method is a comment if it is defaulted or commented out, and its other lines
if it is commented out. -/
theorem lines_classifiedBlock (r : RecordDecl) (head : DeclHead) (info : MethodInfo)
    (cls : MethodClass) :
    ∃ first rest, ((classifiedBlock env r polymorphic head f info cls).lines.diff
        info.markerLines).Perm (first :: rest) ∧
      isComment first = (info.isDefaulted || info.isCommentedOut f polymorphic) ∧
      ∀ line ∈ rest, isComment line = info.isCommentedOut f polymorphic := by
  let commentOut := info.isCommentedOut f polymorphic
  let cx : PrintContext := { env.print with polymorphic, pointerReturn := f.returnType.isPointer }
  let sig := signature env r head f info cls commentOut
  let body := if info.isDtor then none else f.inlineBody?
  let texts := (initializerTexts { env.print with polymorphic } r f info body).map (·.text)
  let binding := if cls.directBinding then bindingLines env r head f cls commentOut else []
  have hlines : (classifiedBlock env r polymorphic head f info cls).lines =
      binding ++ info.markerLines ++ (definition cx sig.text body texts commentOut).lines := rfl
  have hbinding : ∀ line ∈ binding, isComment line = commentOut := by
    intro line hline
    by_cases hdirect : cls.directBinding = true
    · exact isComment_bindingLines cls commentOut line (by simpa [binding, hdirect] using hline)
    · simp [binding, hdirect] at hline
  have htail : ∀ line ∈ (definition cx sig.text body texts commentOut).lines.tail,
      isComment line = commentOut := by
    refine isComment_definition cx sig.text texts commentOut fun b hb => ?_
    have hinline : b ∈ f.inlineBody? := by
      by_cases hdtor : info.isDtor = true
      · simp [body, hdtor] at hb
      · simpa [body, hdtor] using hb
    exact (hbody b hinline).elim (fun h => Stmt.not_isComment_lines hn h.1 h.2) id
  have hsignature := definition_signature cx sig.text body texts commentOut
  rw [hlines]
  generalize (definition cx sig.text body texts commentOut).lines = written at *
  obtain ⟨first, rest, rfl, hfirst⟩ : ∃ first rest, written = first :: rest ∧
      isComment first = (info.isDefaulted || commentOut) := by
    rcases hsignature with hhead | rfl
    · obtain ⟨rest, rfl⟩ := List.head?_eq_some_iff.1 hhead
      refine ⟨sig.text, rest, rfl, ?_⟩
      rw [← String.append_empty (s := sig.text)]
      exact isComment_signature info cls commentOut ""
    · exact ⟨sig.text ++ ";", [], rfl, isComment_signature info cls commentOut ";"⟩
  exact ⟨first, binding ++ rest, (diff_markerLines info _ _).trans List.perm_middle, hfirst,
    List.forall_mem_append.2 ⟨hbinding, htail⟩⟩

/-- All lines of a method are comments or none is, exactly if the method is no defaulted one, or is
commented out, or has its signature only. -/
theorem methodBlock_comments (r : RecordDecl) (head : DeclHead) :
    let info := f.method.getD {}
    let lines := (r.methodBlock env polymorphic head f).lines.diff info.markerLines
    (info.isCommentedOut f polymorphic = true → ∀ line ∈ lines, isComment line = true) ∧
    (((∀ line ∈ lines, isComment line = true) ∨ ∀ line ∈ lines, isComment line = false) ↔
      (info.isDefaulted = true → info.isCommentedOut f polymorphic = true ∨ lines.length ≤ 1)) := by
  intro info
  have hnothing : ∀ commentOut : Bool, ∀ ls : List String, ls = [] →
      (commentOut = true → ∀ line ∈ ls, isComment line = true) ∧
      (((∀ line ∈ ls, isComment line = true) ∨ ∀ line ∈ ls, isComment line = false) ↔
        (info.isDefaulted = true → commentOut = true ∨ ls.length ≤ 1)) := by
    rintro commentOut _ rfl
    simp
  unfold methodBlock
  dsimp only
  split
  · exact hnothing _ _ (List.nil_diff _)
  split
  · exact hnothing _ _ (List.nil_diff _)
  · next cls _ =>
    obtain ⟨first, rest, hperm, hfirst, hrest⟩ :=
      lines_classifiedBlock hn polymorphic hbody r head info cls
    exact alike_iff hperm hfirst hrest

end

end RecordDecl

/-- The default constructor of a struct, with an initializer: all its lines are comments. -/
theorem methodBlock_comments_counter :
    let env := EmitEnv.ofUnit { files := [] } {} .strings
    let body : Stmt := .compound []
    let init : CtorInitializer := { member := some "n", init := .integerLiteral 0 .int }
    let f : Function := {
      returnType := .builtin .void, isInline := true, body := some body,
      method := some { role := .constructor .default [init] } }
    let counter : RecordDecl := ⟨{ id := 1, name := some "Counter" }, { tag := .struct }, [], []⟩
    let lines := (counter.methodBlock env false { id := 2, name := some "Counter" } f).lines
    (env.names.Spelled (All isInline) ∧
      ∀ b ∈ f.inlineBody?, b.isCompound = true ∧ b.Spelled (All isInline)) ∧
    "//    n = 0;" ∈ lines ∧ ∀ line ∈ lines, isComment line = true := by
  intro env body init f counter lines
  have hnames : env.names.Spelled (All isInline) := fun entry h => absurd h List.not_mem_nil
  have hbody : ∀ b ∈ f.inlineBody?, b.isCompound = true ∧ b.Spelled (All isInline) := by
    rintro b ⟨⟩
    exact ⟨rfl, trivial⟩
  have hcomments := RecordDecl.methodBlock_comments hnames false
    (fun b hb => Or.inl (hbody b hb)) counter { id := 2, name := some "Counter" }
  exact ⟨⟨hnames, hbody⟩, by decide +kernel, hcomments.1 rfl⟩

/-- The equality of a struct that is declared as defaulted: its signature is a comment, the binding
in front of it is not. -/
theorem defaultedEquality_uncommented :
    let env := EmitEnv.ofUnit { files := [] } {} .strings
    let f : Function := {
      returnType := .builtin .bool, mangledName := some "_ZNK5PointeqERKS_",
      method := some {
        operator := some .equalEqual, isConst := true, isDefaulted := true,
        isExplicitlyDefaulted := true } }
    let point : RecordDecl := ⟨{ id := 1, name := some "Point" }, { tag := .struct }, [], []⟩
    let lines := (point.methodBlock env false { id := 2, name := some "operator==" } f).lines
    lines = ["pragma(mangle, \"_ZNK5PointeqERKS_\")",
      "// (default) public final bool opEquals() const;"] ∧
    ¬ ((∀ line ∈ lines, isComment line = true) ∨ ∀ line ∈ lines, isComment line = false) := by
  decide +kernel

end DBindings
