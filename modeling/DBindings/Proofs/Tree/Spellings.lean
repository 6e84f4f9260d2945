import DBindings.Naming.Table
import Mathlib.Data.List.Basic

/-!
# Spellings in a tree

A front end hands over names and other texts as they are.  What is printed depends on them, so
statements about printed text say which texts a tree holds.

* `Ty.spellings`         the texts of a type;
* `Expr.Within`          an expression inside another one;
* `Expr.Spelled`, `Stmt.Spelled`   all texts of an expression or statement have a property;
* `NameTable.Spelled`    all names that are given have a property.
-/

set_option linter.unusedSectionVars false

namespace DBindings

mutual

/-- The names and spellings in a type. -/
def Ty.spellings : Ty → List String
  | .builtin _ => []
  | .pointer inner | .reference inner _ | .constantArray inner _ | .array inner
  | .qualified _ inner => inner.spellings
  | .function ret params _ => ret.spellings ++ Ty.spellingsAll params
  | .record ref | .enum ref => [ref.name]
  | .templateSpecialization template args => template :: TemplateArg.spellingsAll args
  | .typedef name underlying => name :: underlying.spellings
  | .templateParam name => [name]
  | .dependent spelling => [spelling]

def Ty.spellingsAll : List Ty → List String
  | [] => []
  | ty :: tys => ty.spellings ++ Ty.spellingsAll tys

def TemplateArg.spellings : TemplateArg → List String
  | .type ty => ty.spellings
  | .integral _ _ _ => []
  | .expression spelling => [spelling]

def TemplateArg.spellingsAll : List TemplateArg → List String
  | [] => []
  | arg :: args => arg.spellings ++ TemplateArg.spellingsAll args

end

theorem Ty.mem_spellings_desugar {s : String} :
    (ty : Ty) → s ∈ ty.desugar.spellings → s ∈ ty.spellings
  | .qualified _ inner, h => Ty.mem_spellings_desugar inner h
  | .typedef _ underlying, h => List.mem_cons_of_mem _ (Ty.mem_spellings_desugar underlying h)
  | .builtin _, h | .pointer _, h | .reference _ _, h | .constantArray _ _, h | .array _, h
  | .function _ _ _, h | .record _, h | .enum _, h | .templateSpecialization _ _, h
  | .templateParam _, h | .dependent _, h => h

namespace Expr

/-- The operands of an expression. -/
def children : Expr → List Expr
  | member base _ => [base]
  | call callee args _ | memberCall callee args _ _ => callee :: args
  | operatorCall _ args | construct _ args _ _ | temporaryObject _ args
  | unresolvedConstruct _ args | initList _ args => args
  | unary _ x | paren x | implicitCast _ x _ | cStyleCast _ x | namedCast _ _ x
  | functionalCast _ x _ | materializeTemporary x _ | deleteObject x _ | pseudoDestructor x
  | traitOfExpr _ x => [x]
  | binary _ x y | arraySubscript x y => [x, y]
  | conditional x y z => [x, y, z]
  | newObject _ placement init _ => placement ++ init.toList
  | dependentMember base _ _ => base.toList
  | _ => []

/-- The texts that an expression holds beside its operands. -/
def spellings : Expr → List String
  | declRef name ty qualifier args =>
    name :: (ty.spellings ++ (qualifier.map Ty.spellings).getD [] ++ TemplateArg.spellingsAll args)
  | member _ info => info.member :: (info.ty.spellings ++
      (info.qualifier.map Ty.spellings).getD [] ++ TemplateArg.spellingsAll info.templateArgs)
  | implicitCast _ _ ty | cStyleCast ty _ | namedCast _ ty _ | functionalCast ty _ _
  | construct ty _ _ _ | temporaryObject ty _ | unresolvedConstruct ty _
  | materializeTemporary _ ty | newObject ty _ _ _ | traitOfType _ ty | initList ty _ =>
    ty.spellings
  | dependentMember _ name args => name :: TemplateArg.spellingsAll args
  | unknown spelling => [spelling]
  | _ => []

/-- `Within e x`: `x` is `e` or stands somewhere inside it. -/
inductive Within (e : Expr) : Expr → Prop
  | self : Within e e
  | child {x c : Expr} (hx : Within e x) (hc : c ∈ x.children) : Within e c

theorem Within.trans {e x y : Expr} (hx : Within e x) (hy : Within x y) : Within e y := by
  induction hy with
  | self => exact hx
  | child _ hc ih => exact .child ih hc

theorem Within.cases_children {e x : Expr} (h : Within e x) :
    x = e ∨ ∃ c ∈ e.children, Within c x := by
  induction h with
  | self => exact Or.inl rfl
  | child hx hc ih =>
    rcases ih with rfl | ⟨d, hd, hd'⟩
    · exact Or.inr ⟨_, hc, .self⟩
    · exact Or.inr ⟨d, hd, .child hd' hc⟩

/-- Every text in an expression has a property. -/
def Spelled (P : String → Prop) (e : Expr) : Prop := ∀ x, Within e x → ∀ s ∈ x.spellings, P s

theorem Spelled.of_children {P : String → Prop} {e : Expr} (hown : ∀ s ∈ e.spellings, P s)
    (h : ∀ c ∈ e.children, c.Spelled P) : e.Spelled P := by
  intro x hx
  rcases hx.cases_children with rfl | ⟨c, hc, hx⟩
  · exact hown
  · exact h c hc x hx

theorem Spelled.var {P : String → Prop} {name : String} {ty : Ty} (hname : P name)
    (hty : ∀ s ∈ ty.spellings, P s) : (Expr.var name ty).Spelled P := by
  refine .of_children (fun s hs => ?_) fun c hc => absurd hc List.not_mem_nil
  rcases List.mem_cons.1 hs with rfl | hs
  · exact hname
  · simp [TemplateArg.spellingsAll] at hs
    exact hty s hs

theorem Spelled.within {P : String → Prop} {e x : Expr} (h : e.Spelled P) (hx : Within e x) :
    x.Spelled P := fun y hy => h y (hx.trans hy)

theorem Spelled.child {P : String → Prop} {e c : Expr} (h : e.Spelled P) (hc : c ∈ e.children) :
    c.Spelled P := h.within (.child .self hc)

theorem Spelled.own {P : String → Prop} {e : Expr} (h : e.Spelled P) : ∀ s ∈ e.spellings, P s :=
  h e .self

end Expr

/-! ## Statements -/

def LocalVar.Spelled (P : String → Prop) (v : LocalVar) : Prop :=
  P v.name ∧ (∀ s ∈ v.ty.spellings, P s) ∧ ∀ e ∈ v.init, e.Spelled P

mutual

def Stmt.Spelled (P : String → Prop) : Stmt → Prop
  | .compound body => Stmt.SpelledAll P body
  | .expr e => e.Spelled P
  | .decl vars => ∀ v ∈ vars, v.Spelled P
  | .ret value => ∀ e ∈ value, e.Spelled P
  | .ifThen cond yes no => cond.Spelled P ∧ yes.Spelled P ∧ Stmt.SpelledOption P no
  | .whileLoop e body | .doLoop body e | .switch e body | .caseLabel e body =>
    e.Spelled P ∧ body.Spelled P
  | .forLoop init cond inc body => Stmt.SpelledOption P init ∧ (∀ e ∈ cond, e.Spelled P) ∧
      (∀ e ∈ inc, e.Spelled P) ∧ body.Spelled P
  | .defaultLabel body => body.Spelled P
  | .label name body => P name ∧ body.Spelled P
  | .goto name => P name
  | .break_ | .continue_ | .null => True

def Stmt.SpelledAll (P : String → Prop) : List Stmt → Prop
  | [] => True
  | s :: rest => s.Spelled P ∧ Stmt.SpelledAll P rest

def Stmt.SpelledOption (P : String → Prop) : Option Stmt → Prop
  | none => True
  | some s => s.Spelled P

end

/-! ## Properties of all texts -/

section
variable {P : String → Prop} (hP : ∀ s, P s)
include hP

theorem Expr.Spelled.of_forall (e : Expr) : e.Spelled P := fun _ _ s _ => hP s

theorem LocalVar.Spelled.of_forall (v : LocalVar) : v.Spelled P :=
  ⟨hP _, fun s _ => hP s, fun e _ => Expr.Spelled.of_forall hP e⟩

mutual

theorem Stmt.Spelled.of_forall : (s : Stmt) → s.Spelled P
  | .compound body => Stmt.SpelledAll.of_forall body
  | .expr e => Expr.Spelled.of_forall hP e
  | .decl _ => fun v _ => LocalVar.Spelled.of_forall hP v
  | .ret _ => fun e _ => Expr.Spelled.of_forall hP e
  | .ifThen cond yes no => ⟨Expr.Spelled.of_forall hP cond, Stmt.Spelled.of_forall yes,
      Stmt.SpelledOption.of_forall no⟩
  | .whileLoop e body | .doLoop body e | .switch e body | .caseLabel e body =>
    ⟨Expr.Spelled.of_forall hP e, Stmt.Spelled.of_forall body⟩
  | .forLoop init _ _ body =>
    ⟨Stmt.SpelledOption.of_forall init, fun e _ => Expr.Spelled.of_forall hP e,
      fun e _ => Expr.Spelled.of_forall hP e, Stmt.Spelled.of_forall body⟩
  | .defaultLabel body => Stmt.Spelled.of_forall body
  | .label _ body => ⟨hP _, Stmt.Spelled.of_forall body⟩
  | .goto _ => hP _
  | .break_ | .continue_ | .null => trivial

theorem Stmt.SpelledAll.of_forall : (ss : List Stmt) → Stmt.SpelledAll P ss
  | [] => trivial
  | s :: rest => ⟨Stmt.Spelled.of_forall s, Stmt.SpelledAll.of_forall rest⟩

theorem Stmt.SpelledOption.of_forall : (s : Option Stmt) → Stmt.SpelledOption P s
  | none => trivial
  | some s => Stmt.Spelled.of_forall s

end

end

/-! ## Weaker properties -/

section
variable {P Q : String → Prop} (hPQ : ∀ s, P s → Q s)
include hPQ

theorem Expr.Spelled.mono {e : Expr} (h : e.Spelled P) : e.Spelled Q :=
  fun x hx s hs => hPQ s (h x hx s hs)

theorem LocalVar.Spelled.mono {v : LocalVar} (h : v.Spelled P) : v.Spelled Q :=
  ⟨hPQ _ h.1, fun s hs => hPQ s (h.2.1 s hs), fun e he => (h.2.2 e he).mono hPQ⟩

mutual

theorem Stmt.Spelled.mono : (s : Stmt) → s.Spelled P → s.Spelled Q
  | .compound body, h => Stmt.SpelledAll.mono body h
  | .expr _, h => Expr.Spelled.mono hPQ h
  | .decl _, h => fun v hv => (h v hv).mono hPQ
  | .ret _, h => fun e he => (h e he).mono hPQ
  | .ifThen _ yes no, ⟨hcond, hyes, hno⟩ =>
    ⟨hcond.mono hPQ, Stmt.Spelled.mono yes hyes, Stmt.SpelledOption.mono no hno⟩
  | .whileLoop _ body, ⟨he, hbody⟩ | .doLoop body _, ⟨he, hbody⟩ | .switch _ body, ⟨he, hbody⟩
  | .caseLabel _ body, ⟨he, hbody⟩ => ⟨he.mono hPQ, Stmt.Spelled.mono body hbody⟩
  | .forLoop init _ _ body, ⟨hinit, hcond, hinc, hbody⟩ =>
    ⟨Stmt.SpelledOption.mono init hinit, fun e he => (hcond e he).mono hPQ,
      fun e he => (hinc e he).mono hPQ, Stmt.Spelled.mono body hbody⟩
  | .defaultLabel body, h => Stmt.Spelled.mono body h
  | .label _ body, ⟨hname, hbody⟩ => ⟨hPQ _ hname, Stmt.Spelled.mono body hbody⟩
  | .goto _, h => hPQ _ h
  | .break_, _ | .continue_, _ | .null, _ => trivial

theorem Stmt.SpelledAll.mono : (ss : List Stmt) → Stmt.SpelledAll P ss → Stmt.SpelledAll Q ss
  | [], _ => trivial
  | s :: rest, ⟨hs, hrest⟩ => ⟨Stmt.Spelled.mono s hs, Stmt.SpelledAll.mono rest hrest⟩

theorem Stmt.SpelledOption.mono :
    (s : Option Stmt) → Stmt.SpelledOption P s → Stmt.SpelledOption Q s
  | none, _ => trivial
  | some s, h => Stmt.Spelled.mono s h

end

end

def NameTable.Spelled (P : String → Prop) (names : NameTable) : Prop :=
  ∀ entry ∈ names.records, P entry.2

theorem NameTable.Spelled.mono {P Q : String → Prop} {names : NameTable} (h : names.Spelled P)
    (hPQ : ∀ s, P s → Q s) : names.Spelled Q := fun entry he => hPQ _ (h entry he)

theorem NameTable.Spelled.refName {P : String → Prop} {names : NameTable} (h : names.Spelled P)
    {ref : DeclRef} (href : P ref.name) : P (names.refName ref) := by
  unfold NameTable.refName NameTable.get?
  cases hlookup : names.records.lookup ref.id with
  | none => exact href
  | some name =>
    obtain ⟨before, after, hrecords, _⟩ := List.lookup_eq_some_iff.1 hlookup
    exact h (ref.id, name) (hrecords ▸ List.mem_append_right _ List.mem_cons_self)

end DBindings
